import Fine.Library.Bisimulation
import Fine.Runtime.Bindings
import Fine.Runtime.Bisimulation

/-!
# The asserted terms say what a bisimulation is

Where the open tables are elements of their types, the four asserted terms say that the relation is
a bisimulation of the two systems with the initial pair.
-/

namespace Fine.RuntimeDetail

open Fine.Syntax Fine.Semantics Fine.Fallible Fine.Bisimulation List

variable {runtime later : Runtime} {interp : Interp} {assignment : Assignment}

def entryAt : Element → Value → Value
  | .table entry, key => entry key
  | .plain _, _ => default

/-- States of an enumeration. -/
abbrev State (interp : Interp) (type : RuntimeType) :=
  { value : Value // Inhabits interp.shapes value type.meaning }

namespace BisimulationQuery

variable (query : BisimulationQuery)

def leftSystem (interp : Interp) (assignment : Assignment) : System (State interp query.left) where
  step first second := entryAt (eval interp query.leftStep.value assignment)
    (.pair first.1 second.1) = .bool true
  label state := entryAt (eval interp query.leftLabel.value assignment) state.1 = .bool true

def rightSystem (interp : Interp) (assignment : Assignment) :
    System (State interp query.right) where
  step first second := entryAt (eval interp query.rightStep.value assignment)
    (.pair first.1 second.1) = .bool true
  label state := entryAt (eval interp query.rightLabel.value assignment) state.1 = .bool true

def pairsOf (interp : Interp) (table : Element) (left : State interp query.left)
    (right : State interp query.right) : Prop :=
  entryAt table (.pair left.1 right.1) = .bool true

def holes : List Const :=
  query.relation.value.constants ++ (query.leftStep.value.constants ++
    (query.rightStep.value.constants ++ (query.leftLabel.value.constants ++
      query.rightLabel.value.constants)))

end BisimulationQuery

theorem eval_selectOf (domain : RuntimeType) (table key : Term) :
    eval interp (selectOf domain table key) assignment =
      .plain (entryAt (eval interp table assignment) (eval interp key assignment).toValue) := by
  rw [selectOf, eval_app, map_cons, map_cons, map_nil]
  cases eval interp table assignment with
  | plain value => rfl
  | table entry => rfl

theorem models_selectOf (domain : RuntimeType) (table key : Term) :
    Models interp (selectOf domain table key) assignment ↔
      entryAt (eval interp table assignment) (eval interp key assignment).toValue =
        .bool true := by
  rw [Models, eval_selectOf, Element.Holds, Element.plain.injEq]

theorem eval_pairOf (type : RuntimeType) (first second : Term) :
    eval interp (pairOf type first second) assignment =
      .plain (.pair (eval interp first assignment).toValue
        (eval interp second assignment).toValue) := by
  rw [pairOf, eval_app]
  cases type <;> rfl

/-- The assignment with other elements for some constants. -/
def Assignment.update (assignment : Assignment) (bound : List Const) (elements : List Element) :
    Assignment :=
  fun constant => ((bound.zip elements).lookup constant).getD (assignment constant)

variable {bound : List Const} {constant : Const} {holds : List Element → Prop} {table : Binding}
  {span : SourceSpan} {name : Identifier}

theorem lookup_zip_none (elements : List Element) (free : constant ∉ bound) :
    (bound.zip elements).lookup constant = none := by
  rw [lookup_eq_none_iff]
  intro entry member
  have inside := (of_mem_zip member).1
  rw [bne_iff_ne]
  rintro rfl
  exact free inside

variable {shapes : Shapes} {first second other : Assignment} {body : Term}
  {type key state : RuntimeType} {role : String} {result : Unit} {solve : SolveDecl}

theorem varies_update {elements : List Element}
    (typed : Forall₂ (fun constant element =>
      Element.Inhabits shapes element (Z3Sort.meaning (Const.sort constant))) bound elements) :
    Varies shapes bound assignment (assignment.update bound elements) where
  same constant free := by
    rw [Assignment.update, lookup_zip_none elements free]
    rfl
  sorted constant member := by
    induction typed with
    | nil => cases member
    | @cons other element bound elements head tail ih =>
      by_cases here : constant = other
      · simpa [Assignment.update, here] using head
      · have later := ih ((mem_cons.mp member).resolve_left here)
        simpa [Assignment.update, lookup_cons, beq_eq_false_iff_ne.mpr here] using later

theorem Varies.eq_update (varies : Varies shapes bound first second) :
    first.update bound (bound.map second) = second := by
  funext constant
  by_cases member : constant ∈ bound
  · have found : (bound.zip (bound.map second)).lookup constant = some (second constant) := by
      clear varies
      induction bound with
      | nil => cases member
      | cons other bound ih =>
        by_cases here : constant = other
        · simp [here]
        · have later := ih ((mem_cons.mp member).resolve_left here)
          rw [map_cons, zip_cons_cons, lookup_cons, beq_eq_false_iff_ne.mpr here]
          exact later
    rw [Assignment.update, found]
    rfl
  · rw [Assignment.update, lookup_zip_none _ member, varies.same constant member]
    rfl

/-- The elements are of the sorts of the constants. -/
abbrev ElementsOf (interp : Interp) (bound : List Const) (elements : List Element) : Prop :=
  Forall₂ (fun constant element =>
    Element.Inhabits interp.shapes element (Z3Sort.meaning (Const.sort constant))) bound elements

theorem Varies.elements (varies : Varies interp.shapes bound first second) :
    ElementsOf interp bound (bound.map second) := by
  rw [ElementsOf, forall₂_map_right_iff, forall₂_same]
  exact varies.sorted

/-- The body is true for all elements of the bound constants. -/
theorem models_forall_update :
    Models interp (.quantified true bound body) assignment ↔
      ∀ elements, ElementsOf interp bound elements →
        Models interp body (assignment.update bound elements) := by
  rw [models_forall]
  constructor
  · exact fun all elements typed => all _ (varies_update typed)
  · intro all other varies
    have holds := all _ varies.elements
    rwa [varies.eq_update] at holds

/-- The body is true for some elements of the bound constants. -/
theorem models_exists_update :
    Models interp (.quantified false bound body) assignment ↔
      ∃ elements, ElementsOf interp bound elements ∧
        Models interp body (assignment.update bound elements) := by
  rw [models_exists]
  constructor
  · rintro ⟨other, varies, holds⟩
    refine ⟨_, varies.elements, ?_⟩
    rwa [varies.eq_update]
  · rintro ⟨elements, typed, holds⟩
    exact ⟨_, varies_update typed, holds⟩

theorem forall_elements_nil :
    (∀ elements, ElementsOf interp [] elements → holds elements) ↔ holds [] := by
  simp [ElementsOf]

theorem forall_elements_cons (sort : constant.sort = type.sort) (flat : type.isTable = false) :
    (∀ elements, ElementsOf interp (constant :: bound) elements → holds elements) ↔
      ∀ (state : State interp type) (elements : List Element), ElementsOf interp bound elements →
        holds (.plain state.1 :: elements) := by
  constructor
  · intro all state elements typed
    refine all _ (.cons ?_ typed)
    rw [sort]
    exact state.2
  · intro all elements typed
    cases typed with
    | @cons _ element _ elements head tail =>
      rw [sort] at head
      obtain ⟨shape, inside⟩ := head.toValue ((RuntimeType.isTable_meaning type).trans flat)
      rw [shape]
      exact all ⟨element.toValue, inside⟩ elements tail

theorem exists_elements_one (sort : constant.sort = type.sort) (flat : type.isTable = false) :
    (∃ elements, ElementsOf interp [constant] elements ∧ holds elements) ↔
      ∃ state : State interp type, holds [.plain state.1] := by
  constructor
  · rintro ⟨elements, typed, holds⟩
    cases typed with
    | @cons _ element _ elements head tail =>
      cases tail
      rw [sort] at head
      obtain ⟨shape, inside⟩ := head.toValue ((RuntimeType.isTable_meaning type).trans flat)
      rw [shape] at holds
      exact ⟨⟨element.toValue, inside⟩, holds⟩
  · rintro ⟨state, holds⟩
    refine ⟨_, .cons ?_ .nil, holds⟩
    rw [sort]
    exact state.2

/-- The tables have the types that a bisimulation needs. -/
structure BisimulationQuery.Valid (query : BisimulationQuery) (runtime : Runtime) : Prop where
  relation : query.relation.Valid runtime query.name
  open_ : query.relation.isModel = true
  leftStep : ∃ name, query.leftStep.Valid runtime name
  rightStep : ∃ name, query.rightStep.Valid runtime name
  leftLabel : ∃ name, query.leftLabel.Valid runtime name
  rightLabel : ∃ name, query.rightLabel.Valid runtime name
  relationType : ∃ address boolean,
    query.relation.type = .table address query.domain (.boolean boolean)
  domain : ∃ address sequence, query.domain = .tuple address sequence query.left query.right
  left : ∃ address name, query.left = .enumeration address name
  right : ∃ address name, query.right = .enumeration address name
  leftLabelType : ∃ address boolean,
    query.leftLabel.type = .table address query.left (.boolean boolean)
  rightLabelType : ∃ address boolean,
    query.rightLabel.type = .table address query.right (.boolean boolean)
  initial : GroundValue runtime query.initial query.domain

theorem binding_ok {expression : Expr} {found : Identifier × Binding}
    (run : (binding expression role).run runtime = .ok (found, later)) :
    runtime = later ∧ runtime.bindings.lookup found.1 = some found.2 := by
  unfold binding at run
  split at run
  · simp only [run_get_bind] at run
    split at run
    · rename_i lookup
      cases run
      exact ⟨rfl, lookup⟩
    · cases run
  · cases run

theorem expectBoolRange_ok
    (run : (expectBoolRange table span role).run runtime = .ok (key, later)) :
    runtime = later ∧ ∃ address boolean, table.type = .table address key (.boolean boolean) := by
  unfold expectBoolRange at run
  split at run
  · rename_i address key boolean shape
    cases run
    exact ⟨rfl, address, boolean, shape⟩
  · cases run
  · cases run

theorem validateStep_ok
    (run : (validateStep table state span role).run runtime = .ok (key, later)) :
    runtime = later := by
  unfold validateStep at run
  obtain ⟨domain, _, first, run⟩ := run_bind_ok run
  obtain ⟨rfl, -⟩ := expectBoolRange_ok first
  split at run
  · split at run
    · cases run
    · cases run; rfl
  · cases run

theorem validateLabel_ok (formed : runtime.WellFormed) (valid : table.Valid runtime name)
    (listed : state ∈ runtime.objects)
    (run : (validateLabel table state span role).run runtime = .ok (result, later)) :
    runtime = later ∧ ∃ address boolean, table.type = .table address state (.boolean boolean) := by
  unfold validateLabel at run
  obtain ⟨domain, _, first, run⟩ := run_bind_ok run
  obtain ⟨rfl, address, boolean, shape⟩ := expectBoolRange_ok first
  split at run
  · cases run
  rename_i same
  cases run
  refine ⟨rfl, address, boolean, ?_⟩
  have inside := valid.listed
  rw [shape] at inside
  obtain ⟨-, keys, -, -, -⟩ := formed.types.compound_lookup inside (.inr ⟨_, rfl⟩)
  simp only [Bool.not_eq_true', Bool.not_eq_false] at same
  rw [shape, formed.types.unique keys listed ((formed.types.same_iff keys listed).mp same)]

theorem stateTypes_ok {domain : RuntimeType} {states : RuntimeType × RuntimeType}
    (run : (stateTypes span domain).run runtime = .ok (states, later)) :
    runtime = later ∧ (∃ address sequence, domain = .tuple address sequence states.1 states.2) ∧
      (∃ address name, states.1 = .enumeration address name) ∧
      ∃ address name, states.2 = .enumeration address name := by
  unfold stateTypes at run
  split at run
  · cases run
    exact ⟨rfl, ⟨_, _, rfl⟩, ⟨_, _, rfl⟩, ⟨_, _, rfl⟩⟩
  · cases run
  · cases run

theorem addInputs_ok {arguments : List NamedArgument} {before after : Map String Expr}
    (run : (addInputs before arguments).run runtime = .ok (after, later)) : runtime = later := by
  induction arguments generalizing before with
  | nil => cases run; rfl
  | cons argument arguments ih =>
    rw [addInputs] at run
    split at run
    · cases run
    · exact ih run

theorem takeMap_ok {inputs : SolveInputs}
    (run : (takeMap solve).run runtime = .ok (inputs, later)) : runtime = later := by
  unfold takeMap at run
  obtain ⟨added, _, first, run⟩ := run_bind_ok run
  obtain rfl := addInputs_ok first
  split at run
  · cases run
  · split at run
    · cases run; rfl
    · cases run

theorem givesRelation_ok (run : (givesRelation solve name).run runtime = .ok (result, later)) :
    runtime = later := by
  unfold givesRelation at run
  split at run
  · split at run
    · cases run
    · cases run; rfl
  · cases run

/-- A query that is read is valid, and nothing changes. -/
theorem bisimulationQuery_ok (formed : runtime.WellFormed) (bound : runtime.Bound)
    {query : BisimulationQuery} (run : (bisimulationQuery solve).run runtime = .ok (query, later)) :
    runtime = later ∧ query.Valid runtime := by
  unfold bisimulationQuery at run
  split at run
  · cases run
  obtain ⟨inputs, _, taken, run⟩ := run_bind_ok run
  obtain rfl := takeMap_ok taken
  obtain ⟨⟨name, relation⟩, _, one, run⟩ := run_bind_ok run
  obtain ⟨rfl, relationBound⟩ := binding_ok one
  obtain ⟨⟨leftStepName, leftStep⟩, _, two, run⟩ := run_bind_ok run
  obtain ⟨rfl, leftStepBound⟩ := binding_ok two
  obtain ⟨⟨rightStepName, rightStep⟩, _, three, run⟩ := run_bind_ok run
  obtain ⟨rfl, rightStepBound⟩ := binding_ok three
  obtain ⟨⟨leftLabelName, leftLabel⟩, _, four, run⟩ := run_bind_ok run
  obtain ⟨rfl, leftLabelBound⟩ := binding_ok four
  obtain ⟨⟨rightLabelName, rightLabel⟩, _, five, run⟩ := run_bind_ok run
  obtain ⟨rfl, rightLabelBound⟩ := binding_ok five
  obtain ⟨domain, _, six, run⟩ := run_bind_ok run
  obtain ⟨rfl, address, boolean, relationType⟩ := expectBoolRange_ok six
  split at run
  · cases run
  rename_i isOpen
  obtain ⟨⟨left, right⟩, _, seven, run⟩ := run_bind_ok run
  obtain ⟨rfl, pairs, leftEnum, rightEnum⟩ := stateTypes_ok seven
  have relationValid := bound.bindings _ _ relationBound
  have listed := relationValid.listed
  rw [relationType] at listed
  obtain ⟨-, domains, -, -, -⟩ := formed.types.compound_lookup listed (.inr ⟨_, rfl⟩)
  obtain ⟨-, lefts, rights, -, -⟩ := formed.types.compound_lookup domains (.inl pairs)
  obtain ⟨leftDomain, _, eight, run⟩ := run_bind_ok run
  obtain rfl := validateStep_ok eight
  obtain ⟨rightDomain, _, nine, run⟩ := run_bind_ok run
  obtain rfl := validateStep_ok nine
  obtain ⟨_, _, ten, run⟩ := run_bind_ok run
  obtain ⟨rfl, leftLabelType⟩ :=
    validateLabel_ok formed (bound.bindings _ _ leftLabelBound) lefts ten
  obtain ⟨_, _, eleven, run⟩ := run_bind_ok run
  obtain ⟨rfl, rightLabelType⟩ :=
    validateLabel_ok formed (bound.bindings _ _ rightLabelBound) rights eleven
  obtain ⟨_, _, gives, run⟩ := run_bind_ok run
  obtain rfl := givesRelation_ok gives
  obtain ⟨initial, _, twelve, run⟩ := run_bind_ok run
  obtain rfl := value_state _ twelve
  cases run
  exact ⟨rfl, relationValid, by simpa using isOpen, ⟨_, bound.bindings _ _ leftStepBound⟩,
    ⟨_, bound.bindings _ _ rightStepBound⟩, ⟨_, bound.bindings _ _ leftLabelBound⟩,
    ⟨_, bound.bindings _ _ rightLabelBound⟩, ⟨_, _, relationType⟩, pairs, leftEnum, rightEnum,
    leftLabelType, rightLabelType, value_ground formed bound _ domains twelve⟩

@[simp] theorem update_cons_self (constant : Const) (element : Element) (bound : List Const)
    (elements : List Element) :
    assignment.update (constant :: bound) (element :: elements) constant = element := by
  simp [Assignment.update]

theorem update_cons_ne {other : Const} (ne : other ≠ constant) (element : Element)
    (bound : List Const) (elements : List Element) :
    assignment.update (constant :: bound) (element :: elements) other =
      assignment.update bound elements other := by
  simp [Assignment.update, lookup_cons, beq_eq_false_iff_ne.mpr ne]

@[simp] theorem update_nil (other : Const) : assignment.update [] [] other = assignment other := rfl

/-- Equal on the constants with names of the language. -/
def Agrees (other assignment : Assignment) : Prop :=
  ∀ constant : Const, isIdentifier constant.name.toList = true →
    other constant = assignment constant

theorem Agrees.update (agrees : Agrees other assignment)
    (outside : ∀ constant ∈ bound, isIdentifier constant.name.toList = false)
    (elements : List Element) : Agrees (other.update bound elements) assignment := by
  intro constant named
  have free : constant ∉ bound := by
    intro inside
    rw [outside constant inside] at named
    cases named
  rw [Assignment.update, lookup_zip_none elements free]
  exact agrees constant named

theorem Binding.Valid.constants (valid : table.Valid runtime name)
    (member : constant ∈ table.value.constants) : constant.name = name.text := by
  obtain ⟨-, address, key, range, -, ⟨-, hole⟩ | ⟨-, closed⟩⟩ := valid
  · rw [hole, Term.constants, mem_singleton] at member
    rw [member]
  · rw [closed.constants] at member
    cases member

theorem Binding.Valid.eval_agrees (valid : ∃ name, table.Valid runtime name)
    (agrees : Agrees other assignment) :
    eval interp table.value other = eval interp table.value assignment := by
  obtain ⟨name, valid⟩ := valid
  apply eval_congr
  intro constant member
  apply agrees
  rw [valid.constants member]
  exact name.valid

theorem Binding.Valid.means (free : runtime.Free interp) (valid : table.Valid runtime name)
    (sorted : assignment.Sorted interp.shapes table.value.constants) :
    (eval interp table.value assignment).Inhabits interp.shapes table.type.meaning := by
  obtain ⟨-, address, key, range, shape, ⟨-, hole⟩ | ⟨-, closed⟩⟩ := valid
  · rw [hole] at sorted ⊢
    exact sorted _ (by simp [Term.constants])
  · obtain ⟨entry, means, typed⟩ := closed.means free
    rw [means, shape]
    exact typed

theorem entryAt_bool {element : Element} {key : FineType}
    (typed : element.Inhabits shapes (.table key .bool)) {value : Value}
    (inside : Inhabits shapes value key) : ∃ truth, entryAt element value = .bool truth := by
  cases element with
  | plain other => exact absurd typed Inhabits.not_table
  | table entry =>
    obtain ⟨_, _, same, within, -⟩ := typed
    cases same
    exact inhabits_bool.mp (within value inside)

namespace BisimulationQuery

variable {query : BisimulationQuery}

theorem vars_distinct (query : BisimulationQuery) :
    query.rightVar ≠ query.leftVar ∧ query.leftNext ≠ query.leftVar ∧
    query.leftNext ≠ query.rightVar ∧ query.rightNext ≠ query.leftVar ∧
    query.rightNext ≠ query.rightVar ∧ query.rightNext ≠ query.leftNext := by
  simp [leftVar, rightVar, leftNext, rightNext]

theorem vars_outside (query : BisimulationQuery) :
    isIdentifier query.leftVar.name.toList = false ∧
    isIdentifier query.rightVar.name.toList = false ∧
    isIdentifier query.leftNext.name.toList = false ∧
    isIdentifier query.rightNext.name.toList = false := by
  refine ⟨?_, ?_, ?_, ?_⟩
  · show isIdentifier "Fine.left".toList = false
    decide
  · show isIdentifier "Fine.right".toList = false
    decide
  · show isIdentifier "Fine.left_next".toList = false
    decide
  · show isIdentifier "Fine.right_next".toList = false
    decide

namespace Valid

variable (valid : query.Valid runtime)
include valid

theorem left_flat : query.left.isTable = false := by
  obtain ⟨_, _, is⟩ := valid.left
  rw [is]
  rfl

theorem right_flat : query.right.isTable = false := by
  obtain ⟨_, _, is⟩ := valid.right
  rw [is]
  rfl

omit valid in
theorem models_pair (known : ∃ name, table.Valid runtime name) (agrees : Agrees other assignment)
    (domain : RuntimeType) {left right : Const} {first second : Value}
    (one : other left = .plain first) (two : other right = .plain second) :
    Models interp (selectOf domain table.value (pairOf domain (.constant left) (.constant right)))
        other ↔
      entryAt (eval interp table.value assignment) (.pair first second) = .bool true := by
  rw [models_selectOf, eval_pairOf, Binding.Valid.eval_agrees known agrees]
  simp only [eval, one, two, Element.toValue]

omit valid in
theorem label_bool (free : runtime.Free interp) (known : ∃ name, table.Valid runtime name)
    (labels : ∃ address boolean, table.type = .table address type (.boolean boolean))
    (sorted : assignment.Sorted interp.shapes table.value.constants) (a : State interp type) :
    ∃ truth, entryAt (eval interp table.value assignment) a.1 = .bool truth := by
  obtain ⟨name, known⟩ := known
  obtain ⟨address, boolean, shape⟩ := labels
  have typed := known.means free sorted
  rw [shape] at typed
  exact entryAt_bool typed a.2

theorem forall_states {third : Const} (sort : third.sort = type.sort) (flat : type.isTable = false)
    (notLeft : third ≠ query.leftVar) (notRight : third ≠ query.rightVar)
    (outside : isIdentifier third.name.toList = false)
    {holds : State interp query.left → State interp query.right → State interp type → Prop}
    (each : ∀ a b c other, Agrees other assignment → other query.leftVar = .plain a.1 →
      other query.rightVar = .plain b.1 → other third = .plain c.1 →
      (Models interp body other ↔ holds a b c)) :
    Models interp (.quantified true [query.leftVar, query.rightVar, third] body) assignment ↔
      ∀ a b c, holds a b c := by
  obtain ⟨rightLeft, -⟩ := query.vars_distinct
  obtain ⟨outLeft, outRight, -⟩ := query.vars_outside
  rw [models_forall_update]
  refine (forall_elements_cons rfl valid.left_flat).trans (forall_congr' fun a =>
    (forall_elements_cons rfl valid.right_flat).trans (forall_congr' fun b =>
      (forall_elements_cons sort flat).trans (forall_congr' fun c =>
        forall_elements_nil.trans (each a b c _ ?_ ?_ ?_ ?_))))
  · exact Agrees.update (fun _ _ => rfl) (by simp [outLeft, outRight, outside]) _
  · exact update_cons_self _ _ _ _
  · rw [update_cons_ne rightLeft, update_cons_self]
  · rw [update_cons_ne notLeft, update_cons_ne notRight, update_cons_self]

/-- Related states have one label. -/
theorem labelsAgree_iff (free : runtime.Free interp)
    (sorted : assignment.Sorted interp.shapes query.holes) :
    Models interp query.labelsAgree assignment ↔
      ∀ a b, query.pairsOf interp (eval interp query.relation.value assignment) a b →
        ((query.leftSystem interp assignment).label a ↔
          (query.rightSystem interp assignment).label b) := by
  obtain ⟨rightLeft, -⟩ := query.vars_distinct
  obtain ⟨outLeft, outRight, -⟩ := query.vars_outside
  rw [labelsAgree, models_forall_update]
  refine (forall_elements_cons rfl valid.left_flat).trans (forall_congr' fun a =>
    (forall_elements_cons rfl valid.right_flat).trans (forall_congr' fun b =>
      forall_elements_nil.trans ?_))
  have agrees : Agrees (assignment.update [query.leftVar, query.rightVar]
      [.plain a.1, .plain b.1]) assignment :=
    Agrees.update (fun _ _ => rfl) (by simp [outLeft, outRight]) _
  have here : (assignment.update [query.leftVar, query.rightVar] [.plain a.1, .plain b.1])
      query.leftVar = .plain a.1 := update_cons_self _ _ _ _
  have there : (assignment.update [query.leftVar, query.rightVar] [.plain a.1, .plain b.1])
      query.rightVar = .plain b.1 := by
    rw [update_cons_ne rightLeft, update_cons_self]
  rw [models_imp, related, models_pair ⟨_, valid.relation⟩ agrees _ here there, models_equals,
    eval_selectOf, eval_selectOf, Binding.Valid.eval_agrees valid.leftLabel agrees,
    Binding.Valid.eval_agrees valid.rightLabel agrees]
  simp only [eval, here, there, Element.toValue, Element.plain.injEq]
  obtain ⟨one, labelOne⟩ := label_bool free valid.leftLabel valid.leftLabelType
    (fun constant member => sorted constant (by simp [holes, member])) a
  obtain ⟨two, labelTwo⟩ := label_bool free valid.rightLabel valid.rightLabelType
    (fun constant member => sorted constant (by simp [holes, member])) b
  apply imp_congr_right
  intro _
  simp only [leftSystem, rightSystem, labelOne, labelTwo, Value.bool.injEq]
  cases one <;> cases two <;> decide

theorem leftStepMatched_iff : Models interp query.leftStepMatched assignment ↔
    ∀ a b next, query.pairsOf interp (eval interp query.relation.value assignment) a b →
      (query.leftSystem interp assignment).step a next →
      ∃ next', (query.rightSystem interp assignment).step b next' ∧
        query.pairsOf interp (eval interp query.relation.value assignment) next next' := by
  obtain ⟨rightLeft, nextLeft, nextRight, lastLeft, lastRight, lastNext⟩ := query.vars_distinct
  obtain ⟨outLeft, outRight, outNext, outLast⟩ := query.vars_outside
  refine valid.forall_states rfl valid.left_flat nextLeft nextRight outNext
    fun a b next other agrees atLeft atRight atNext => ?_
  rw [models_imp, models_conj, related, stepsLeft,
    models_pair ⟨_, valid.relation⟩ agrees _ atLeft atRight,
    models_pair valid.leftStep agrees _ atLeft atNext, models_exists_update,
    exists_elements_one rfl valid.right_flat, and_imp]
  refine imp_congr_right fun _ => imp_congr_right fun _ => exists_congr fun next' => ?_
  have still : Agrees (other.update [query.rightNext] [.plain next'.1]) assignment :=
    agrees.update (by simp [outLast]) _
  rw [models_conj, stepsRight, related, models_pair valid.rightStep still _
    (by rw [update_cons_ne lastRight.symm, update_nil, atRight]) (update_cons_self _ _ _ _),
    models_pair ⟨_, valid.relation⟩ still _
      (by rw [update_cons_ne lastNext.symm, update_nil, atNext]) (update_cons_self _ _ _ _)]
  rfl

theorem rightStepMatched_iff : Models interp query.rightStepMatched assignment ↔
    ∀ a b next', query.pairsOf interp (eval interp query.relation.value assignment) a b →
      (query.rightSystem interp assignment).step b next' →
      ∃ next, (query.leftSystem interp assignment).step a next ∧
        query.pairsOf interp (eval interp query.relation.value assignment) next next' := by
  obtain ⟨rightLeft, nextLeft, nextRight, lastLeft, lastRight, lastNext⟩ := query.vars_distinct
  obtain ⟨outLeft, outRight, outNext, outLast⟩ := query.vars_outside
  refine valid.forall_states rfl valid.right_flat lastLeft lastRight outLast
    fun a b next' other agrees atLeft atRight atLast => ?_
  rw [models_imp, models_conj, related, stepsRight,
    models_pair ⟨_, valid.relation⟩ agrees _ atLeft atRight,
    models_pair valid.rightStep agrees _ atRight atLast, models_exists_update,
    exists_elements_one rfl valid.left_flat, and_imp]
  refine imp_congr_right fun _ => imp_congr_right fun _ => exists_congr fun next => ?_
  have still : Agrees (other.update [query.leftNext] [.plain next.1]) assignment :=
    agrees.update (by simp [outNext]) _
  rw [models_conj, stepsLeft, related, models_pair valid.leftStep still _
    (by rw [update_cons_ne nextLeft.symm, update_nil, atLeft]) (update_cons_self _ _ _ _),
    models_pair ⟨_, valid.relation⟩ still _ (update_cons_self _ _ _ _)
      (by rw [update_cons_ne lastNext, update_nil, atLast])]
  rfl

theorem initial_pair (free : runtime.Free interp) :
    ∃ (a : State interp query.left) (b : State interp query.right), ∀ assignment,
      eval interp query.initial assignment = .plain (.pair a.1 b.1) := by
  obtain ⟨value, means, typed⟩ := valid.initial.means free
  obtain ⟨address, sequence, shape⟩ := valid.domain
  rw [shape] at typed
  cases value with
  | pair first second =>
    obtain ⟨_, _, same, inside, within⟩ := typed
    cases same
    exact ⟨⟨first, inside⟩, ⟨second, within⟩, means⟩
  | bool | int => cases typed
  | con constructor fields =>
    obtain ⟨_, _, _, same, -⟩ := typed
    cases same

/-- The asserted terms say that the relation is a bisimulation with the initial pair. -/
theorem assertions_iff (free : runtime.Free interp)
    (sorted : assignment.Sorted interp.shapes query.holes) {a : State interp query.left}
    {b : State interp query.right}
    (initial : ∀ assignment, eval interp query.initial assignment = .plain (.pair a.1 b.1)) :
    (∀ entry ∈ query.assertions, Models interp entry.2 assignment) ↔
      IsBisimulation (query.leftSystem interp assignment) (query.rightSystem interp assignment)
        (query.pairsOf interp (eval interp query.relation.value assignment)) ∧
      query.pairsOf interp (eval interp query.relation.value assignment) a b := by
  simp only [assertions, forall_mem_cons, not_mem_nil, false_implies, implies_true, and_true]
  rw [valid.labelsAgree_iff free sorted, valid.leftStepMatched_iff, valid.rightStepMatched_iff,
    initialRelated, models_selectOf, initial]
  constructor
  · rintro ⟨labels, forth, back, related⟩
    exact ⟨⟨labels, forth, back⟩, related⟩
  · rintro ⟨⟨labels, forth, back⟩, related⟩
    exact ⟨labels, forth, back, related⟩

end Valid

end BisimulationQuery

end Fine.RuntimeDetail
