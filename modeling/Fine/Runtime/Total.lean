import Fine.Library.Recursion
import Fine.Library.Scan
import Fine.Runtime.Reached
import Mathlib

/-!
# Accepted functions are total

Calls of an accepted function to itself pass a field of the matched value, so exactly one function
satisfies the equations.
-/

namespace Fine.RuntimeDetail

open Fine.Syntax Fine.Semantics Fine.Fallible Fine.Recursion List

variable {runtime later : Runtime}

theorem exists_assignment {constants : List Const} (distinct : constants.Nodup)
    {elements : List Element} (length : constants.length = elements.length) :
    ∃ assignment : Assignment, constants.map assignment = elements := by
  induction constants generalizing elements with
  | nil => exact ⟨fun _ => default, by simpa using (length_eq_zero_iff.mp length.symm).symm⟩
  | cons constant constants ih =>
    cases elements with
    | nil => cases length
    | cons element elements =>
      rw [nodup_cons] at distinct
      obtain ⟨assignment, rest⟩ := ih distinct.2 (Nat.succ.inj length)
      refine ⟨Function.update assignment constant element, ?_⟩
      have same : constants.map (Function.update assignment constant element) =
          constants.map assignment :=
        map_congr_left fun other member =>
          Function.update_of_ne (fun (is : other = constant) => distinct.1 (is ▸ member)) _ _
      rw [map_cons, Function.update_self, same, rest]

variable {rules : ParameterRules} {index : Nat} {seen : List Identifier}
  {parameters : List Parameter} {formals : List Formal} {arguments : List Value} {name : Identifier}
  {arm : MatchArm} {branch : Term × Term} {passed : List Expr}

theorem FormalsOf.terms_nodup (of : FormalsOf rules runtime index seen parameters formals)
    (injective : Function.Injective rules.internal) : (formals.map Formal.term).Nodup := by
  rw [nodup_iff_pairwise_ne, pairwise_iff_getElem]
  intro first second inFirst inSecond below same
  rw [length_map] at inFirst inSecond
  have one := of.terms first _ (List.getElem?_eq_getElem inFirst)
  have two := of.terms second _ (List.getElem?_eq_getElem inSecond)
  rw [getElem_map, getElem_map, one, two, Const.mk.injEq] at same
  have places := injective same.1
  omega

/-- A text with different numbers is different names. -/
theorem numbered_injective (text : String) :
    Function.Injective fun index : Nat => text ++ toString index := by
  intro left right same
  have texts : toString left = toString right := by simpa using same
  exact Scan.toString_injective texts

variable {assignment : Assignment} {fields : List Value}

theorem FormalsOf.sorted_of (of : FormalsOf rules runtime index seen parameters formals)
    {shapes : Shapes} (typed : Forall₂ (Inhabits shapes) arguments (parameterTypes parameters))
    (assigned : (formals.map Formal.term).map assignment = arguments.map Element.plain) :
    assignment.Sorted shapes (formals.map Formal.term) := by
  have elements : Forall₂ (Element.Inhabits shapes)
      (formals.map fun formal => assignment formal.term)
      (formals.map fun formal => formal.type.meaning) := by
    rw [of.types, show (formals.map fun formal => assignment formal.term) =
      arguments.map Element.plain by rw [← assigned, map_map]; rfl,
      forall₂_map_left_iff]
    exact typed
  rw [forall₂_map_left_iff, forall₂_map_right_iff, forall₂_same] at elements
  intro constant member
  obtain ⟨formal, inside, rfl⟩ := mem_map.mp member
  obtain ⟨place, at_⟩ := mem_iff_getElem?.mp inside
  have sort : formal.term.sort = formal.type.sort := by rw [of.terms place formal at_]
  rw [sort]
  exact elements formal inside

theorem lookup_zip_of_getElem? {κ α : Type} [DecidableEq κ] {keys : List κ} {values : List α}
    (distinct : keys.Nodup) (length : keys.length ≤ values.length) {place : Nat} {key : κ}
    {value : α} (atKey : keys[place]? = some key) (atValue : values[place]? = some value) :
    (keys.zip values).lookup key = some value := by
  refine Map.lookup_of_mem ?_ ?_
  · rw [map_fst_zip length]
    exact distinct
  · refine mem_iff_getElem?.mpr ⟨place, ?_⟩
    rw [List.getElem?_zip_eq_some]
    exact ⟨atKey, atValue⟩

theorem mem_of_patternNames {bindings : List MatchBinding} {element : Element}
    (found : (patternNames bindings fields).lookup name = some element) :
    ∃ field ∈ fields, element = .plain field := by
  have member := mem_of_mem_filter (Map.mem_of_lookup found)
  obtain ⟨field, inside, rfl⟩ := mem_map.mp (of_mem_zip member).2
  exact ⟨field, inside, rfl⟩

/-- Every declared datatype is the free algebra of its constructors. -/
def Runtime.Algebras (runtime : Runtime) (interp : Interp) : Prop :=
  ∀ name info, runtime.datatypes.lookup name = some info →
    interp.shapes name = some (info.cases.map fun item =>
      (item.name, item.fieldTypes.map RuntimeType.meaning))

namespace FunctionDeclared

variable {declaration : FunctionDecl} {middle after : Runtime} {frame : FunctionFrame}
  {branches : List (Term × Term)}
  (declared : FunctionDeclared declaration middle after frame branches)

include declared

variable {item : DatatypeCaseInfo} {before last : Runtime}

/-- A decreasing call passes a name of a field of the matched value. -/
theorem name_field (elaborated : ArmElaborated frame before last arm branch item)
    {environment : Environment} {recursive : List Identifier}
    (bound : PatternBound frame.matched item 0 arm.bindings item.fieldTypes
      (environmentOf frame.formals) environment [] recursive)
    (length : fields.length = item.fieldTypes.length) (member : name ∈ recursive) :
    ∃ field ∈ fields, armMeaning declaration arm arguments fields name = some (.plain field) := by
  rcases bound.recursive name member with absurd | ⟨absent, found⟩
  · cases absurd
  -- what the constants stand for is of no matter to the names of the pattern
  let interp : Interp := ⟨fun _ => none, fun _ _ => default, fun _ _ => True, fun _ _ _ => default⟩
  let assignment : Assignment := fun _ => .plain (.con item.name fields)
  have value : assignment frame.matched.term = .plain (.con item.name fields) := rfl
  have enough : fields.length = 0 + arm.bindings.length := by
    rw [length, elaborated.length, Nat.zero_add]
  have inner := patternEntries_meaning interp value elaborated.length enough name
  obtain ⟨entry, is⟩ := Option.isSome_iff_exists.mp found
  rw [drop_zero, is, Option.map_some] at inner
  obtain ⟨field, inside, same⟩ := mem_of_patternNames inner.symm
  have outer : binds (declaration.parameters.map Parameter.name) (arguments.map Element.plain)
      name = none := by
    rw [binds, lookup_eq_none_iff]
    intro pair listed
    have parameter := (of_mem_zip listed).1
    rw [← declared.formals.names] at parameter
    obtain ⟨formal, member, named⟩ := mem_map.mp parameter
    have other := lookup_eq_none_iff.mp absent formal.entry (mem_map_of_mem member)
    rw [← named]
    exact other
  refine ⟨field, inside, ?_⟩
  rw [armMeaning, outer, Option.none_or, ← inner, same]

theorem call_matched (elaborated : ArmElaborated frame before last arm branch item)
    (arguments : List Value) (length : fields.length = item.fieldTypes.length)
    (calls : CallsIn declaration.name arm.value passed) (sig : Signature) (interp : Interp) :
    ∃ field ∈ fields, matchedArgument declaration
      (denoteAll sig interp (armMeaning declaration arm arguments fields) passed) =
        some field := by
  obtain ⟨environment, recursive, bound, -, decreases⟩ := elaborated.value
  rw [declared.of] at decreases
  obtain ⟨arity, info, name, place, member⟩ := decreases passed calls
  obtain ⟨field, inside, meaning⟩ := declared.name_field elaborated bound length member
  refine ⟨field, inside, ?_⟩
  obtain ⟨info', scrutinee⟩ := declared.scrutinee
  have names := declared.formals.names
  have distinct := declared.formals.distinct
  simp only [matchedArgument, scrutinee]
  rw [← names, denoteAll_eq]
  have atKey : (frame.formals.map Formal.name)[frame.position]? = some frame.matched.name := by
    rw [List.getElem?_map, declared.matched, Option.map_some]
  have atValue : (passed.map fun expression => (denote sig interp
      (armMeaning declaration arm arguments fields) expression).toValue)[frame.position]? =
        some field := by
    rw [List.getElem?_map, place, Option.map_some, denote, meaning]
    rfl
  refine lookup_zip_of_getElem? distinct ?_ atKey atValue
  rw [names, length_map, length_map]
  exact arity.ge

def signature (_ : FunctionDeclared declaration middle after frame branches) : Signature :=
  (middle.addFunction (frame.definition branches).info).signature

theorem signature_functions (name : Identifier) : declared.signature.functions name =
      if name = declaration.name then
        some (parameterTypes declaration.parameters, FineType.ofSyntax declaration.resultType)
      else middle.signature.functions name := by
  have none : middle.functions.lookup declaration.name = none :=
    (Runtime.undeclared_lookup declared.new.2).2.2.1
  have added := Map.lookup_emplace middle.functions frame.declaration.name name
    (frame.definition branches).info
  simp only [signature, Runtime.signature, Runtime.addFunction, FunctionFrame.definition] at added ⊢
  rw [added, declared.of]
  by_cases same : name = declaration.name
  · subst same
    rw [if_pos rfl, if_pos rfl, none, Option.none_or, Option.map_some, declared.result.2.2, map_map]
    exact congrArg (fun types => some (types, _)) declared.formals.types
  · rw [if_neg same, if_neg same, Option.or_none]

theorem respectsTypes {interp : Interp} (respects : interp.Respects middle.signature) :
    interp.RespectsTypes declared.signature := by
  refine ⟨respects.cases, respects.constructors, ?_, respects.fields⟩
  intro name parameters result known
  rw [declared.signature_functions] at known
  split at known
  · cases known
    refine ⟨?_, fun type member => ?_⟩
    · rw [← declared.result.2.2]
      exact (RuntimeType.isTable_meaning _).trans declared.result.2.1
    · rw [← declared.formals.types] at member
      obtain ⟨formal, inside, rfl⟩ := mem_map.mp member
      exact (RuntimeType.isTable_meaning _).trans (declared.flat formal inside)
  · exact respects.flat name parameters result known

theorem assignment_of {shapes : Shapes} (arguments : Arguments shapes declaration) :
    ∃ assignment : Assignment,
      (frame.formals.map Formal.term).map assignment = arguments.1.map Element.plain := by
  refine exists_assignment (declared.formals.terms_nodup (numbered_injective _)) ?_
  have types := congrArg List.length declared.formals.types
  have length := arguments.2.length_eq
  simp only [length_map] at types ⊢
  omega

theorem shapes {interp : Interp} (algebras : middle.Algebras interp) :
    interp.shapes frame.datatype.name = some (frame.datatype.cases.map fun item =>
      (item.name, item.fieldTypes.map RuntimeType.meaning)) := by
  obtain ⟨_, -, known⟩ := declared.datatype
  exact algebras _ _ known

/-- The arm of the matched argument, with the branch taken there. -/
structure ArmAt (declared : FunctionDeclared declaration middle after frame branches)
    (shapes : Shapes) (arguments : List Value) (assignment : Assignment) (arm : MatchArm)
    (branch : Term × Term) (fields : List Value) : Prop where
  listed : arm ∈ declaration.arms
  matched : matchedArgument declaration arguments = some (.con arm.constructor fields)
  elaborated : ∃ item before last, before.signature = declared.signature ∧
    ArmElaborated frame before last arm branch item ∧
    assignment frame.matched.term = .plain (.con item.name fields) ∧
    Forall₂ (Inhabits shapes) fields (item.fieldTypes.map RuntimeType.meaning)
  sorted : assignment.Sorted shapes (frame.formals.map Formal.term)
  values : (frame.formals.map fun formal => (assignment formal.term).toValue) = arguments

theorem arm_at (formed : middle.WellFormed) {interp : Interp} (algebras : middle.Algebras interp)
    (arguments : Arguments interp.shapes declaration)
    (assigned : (frame.formals.map Formal.term).map assignment = arguments.1.map Element.plain) :
    ∃ arm branch fields,
      declared.ArmAt interp.shapes arguments.1 assignment arm branch fields ∧
      eval interp (matchBody branches) assignment = eval interp branch.2 assignment := by
  have sorted := declared.formals.sorted_of arguments.2 assigned
  have values : (frame.formals.map fun formal => (assignment formal.term).toValue) =
      arguments.1 := by
    have plain := congrArg (List.map Element.toValue) assigned
    rw [map_map, map_map, map_map] at plain
    exact plain.trans (map_id' _)
  obtain ⟨arm, branch, item, fields, before, last, paired, signature, elaborated, value, typed,
    argument, chosen⟩ := declared.branch_of formed (declared.shapes algebras) sorted
  rw [values] at argument
  exact ⟨arm, branch, fields, ⟨(of_mem_zip paired).1, argument,
    ⟨item, before, last, signature, elaborated, value, typed⟩, sorted, values⟩, chosen⟩

end FunctionDeclared

/-- The arm for an argument, with its fields. -/
def armFor (declaration : FunctionDecl) (arguments : List Value) :
    Option (MatchArm × List Value) :=
  match matchedArgument declaration arguments with
  | some (.con constructor fields) =>
    (declaration.arms.find? fun arm => arm.constructor = constructor).map fun arm => (arm, fields)
  | _ => none

theorem arm_unique {arms : List MatchArm} (distinct : (arms.map MatchArm.constructor).Nodup)
    {first second : MatchArm} (one : first ∈ arms) (two : second ∈ arms)
    (same : first.constructor = second.constructor) : first = second :=
  inj_on_of_nodup_map distinct one two same

theorem armFor_eq {declaration : FunctionDecl}
    (distinct : (declaration.arms.map MatchArm.constructor).Nodup) (listed : arm ∈ declaration.arms)
    (matched : matchedArgument declaration arguments = some (.con arm.constructor fields)) :
    armFor declaration arguments = some (arm, fields) := by
  rw [armFor, matched]
  dsimp only
  cases found : declaration.arms.find? fun other => other.constructor = arm.constructor with
  | none => exact absurd (find?_eq_none.mp found arm listed) (by simp)
  | some other =>
    have same : other.constructor = arm.constructor := by simpa using find?_some found
    rw [arm_unique distinct (mem_of_find?_eq_some found) listed same]
    rfl

/-- The value of the arm, with a function for the calls. -/
noncomputable def armValue (sig : Signature) (interp : Interp) (declaration : FunctionDecl)
    (function : Arguments interp.shapes declaration → Value)
    (arguments : Arguments interp.shapes declaration) : Value :=
  match armFor declaration arguments.1 with
  | some (arm, fields) => (denote sig (interp.define declaration function)
      (armMeaning declaration arm arguments.1 fields) arm.value).toValue
  | none => default

noncomputable def matchedSize (declaration : FunctionDecl) {shapes : Shapes}
    (arguments : Arguments shapes declaration) : Nat :=
  match matchedArgument declaration arguments.1 with
  | some value => sizeOf value
  | none => 0

namespace FunctionDeclared

variable {declaration : FunctionDecl} {middle after : Runtime} {frame : FunctionFrame}
  {branches : List (Term × Term)}
  (declared : FunctionDeclared declaration middle after frame branches)

include declared

theorem call_smaller {shapes : Shapes} {arguments : Arguments shapes declaration}
    (at_ : declared.ArmAt shapes arguments.1 assignment arm branch fields)
    (calls : CallsIn declaration.name arm.value passed) {sig : Signature} {interp : Interp}
    {smaller : Arguments shapes declaration}
    (is : smaller.1 = denoteAll sig interp (armMeaning declaration arm arguments.1 fields) passed) :
    matchedSize declaration smaller < matchedSize declaration arguments := by
  obtain ⟨item, before, last, -, elaborated, -, typed⟩ := at_.elaborated
  have length : fields.length = item.fieldTypes.length := by
    rw [typed.length_eq, length_map]
  obtain ⟨field, member, matched⟩ := declared.call_matched elaborated arguments.1 length calls sig
    interp
  simp only [matchedSize, is, matched, at_.matched]
  have below := sizeOf_lt_of_mem member
  rw [Value.con.sizeOf_spec]
  omega

variable {interp : Interp} (formed : middle.WellFormed) (algebras : middle.Algebras interp)

include formed algebras

theorem descends :
    Descends (matchedSize declaration) (armValue declared.signature interp declaration) := by
  intro first second arguments same
  obtain ⟨assignment, assigned⟩ := declared.assignment_of arguments
  obtain ⟨arm, branch, fields, at_, -⟩ := declared.arm_at formed algebras arguments assigned
  have chosen := armFor_eq declared.arms.distinct at_.listed at_.matched
  simp only [armValue, chosen]
  refine congrArg Element.toValue (denote_congr arm.value ?_)
  intro callee passed calls
  refine Interp.call_congr rfl ?_
  by_cases self : callee = declaration.name
  · subst self
    by_cases typed : Forall₂ (Inhabits interp.shapes) (denoteAll declared.signature
        (interp.define declaration first) (armMeaning declaration arm arguments.1 fields) passed)
        (parameterTypes declaration.parameters)
    · have smaller := declared.call_smaller at_ calls
        (show (⟨_, typed⟩ : Arguments interp.shapes declaration).1 = _ from rfl)
      have one := Interp.define_function first ⟨_, typed⟩
      have two := Interp.define_function second ⟨_, typed⟩
      exact one.trans ((same _ smaller).trans two.symm)
    · rw [Interp.define_untyped first typed, Interp.define_untyped second typed]
  · rw [Interp.define_other first self, Interp.define_other second self]

/-- The function's values are of the result type. -/
theorem armValue_typed (respects : interp.Respects middle.signature)
    {function : Arguments interp.shapes declaration → Value}
    (fixed : armValue declared.signature interp declaration function = function)
    (arguments : Arguments interp.shapes declaration) :
    Inhabits interp.shapes (function arguments) (FineType.ofSyntax declaration.resultType) := by
  induction arguments using (measure (matchedSize declaration)).wf.induction with
  | _ arguments ih =>
    obtain ⟨assignment, assigned⟩ := declared.assignment_of arguments
    obtain ⟨arm, branch, fields, at_, -⟩ := declared.arm_at formed algebras arguments assigned
    have chosen := armFor_eq declared.arms.distinct at_.listed at_.matched
    have value : function arguments = (denote declared.signature
        (interp.define declaration function) (armMeaning declaration arm arguments.1 fields)
        arm.value).toValue := by
      rw [← congrFun fixed arguments, armValue, chosen]
    obtain ⟨item, before, last, signature, elaborated, built, typed⟩ := at_.elaborated
    have formals := declared.formals
    rw [← declared.of] at formals
    obtain ⟨environment, body, meaning, scope⟩ := elaborated.scope formals declared.flat
      (show assignment.Sorted (interp.define declaration function).shapes _ from at_.sorted)
      built typed
    rw [declared.of, at_.values] at meaning
    rw [meaning] at scope
    have typedBody := body.typed
    rw [signature] at typedBody
    have known := declared.respectsTypes respects
    have types : (interp.define declaration function).RespectsTypes declared.signature :=
      ⟨known.cases, known.constructors, known.flat, known.fields⟩
    have inhabits := denote_typed_of_calls types scope arm.value typedBody ?_
    · rw [value, ← declared.result.2.2]
      exact (inhabits.toValue ((RuntimeType.isTable_meaning _).trans declared.result.2.1)).2
    · intro callee passed calls parameters result known passedTyped
      rw [declared.signature_functions] at known
      split at known
      · rename_i self
        subst self
        cases known
        have smaller := ih ⟨_, passedTyped⟩ (declared.call_smaller at_ calls rfl)
        rw [← Interp.define_function function] at smaller
        exact smaller
      · rename_i other
        rw [Interp.define_other function other]
        exact respects.functions callee parameters result known _ passedTyped

/-- The equations say that the function is the value of the arm. -/
theorem means_iff (respects : interp.Respects middle.signature)
    (function : Arguments interp.shapes declaration → Value) :
    FunctionMeans declared.signature (interp.define declaration function) declaration ↔
      armValue declared.signature interp declaration function = function := by
  constructor
  · intro means
    funext arguments
    obtain ⟨assignment, assigned⟩ := declared.assignment_of arguments
    obtain ⟨arm, branch, fields, at_, -⟩ := declared.arm_at formed algebras arguments assigned
    have equation := means.equation arguments.1 arguments.2 arm at_.listed fields at_.matched
    rw [Interp.define_function] at equation
    rw [armValue, armFor_eq declared.arms.distinct at_.listed at_.matched, equation]
  · intro fixed
    constructor
    · intro arguments typed
      have inhabits := declared.armValue_typed formed algebras respects fixed ⟨arguments, typed⟩
      rw [← Interp.define_function function] at inhabits
      exact inhabits
    · intro arguments typed arm listed fields matched
      have value := congrFun fixed ⟨arguments, typed⟩
      rw [← Interp.define_function function ⟨arguments, typed⟩, armValue,
        armFor_eq declared.arms.distinct listed matched] at value
      exact value.symm

end FunctionDeclared

theorem Extends.datatypes_eq {first second : Runtime} (extends_ : Extends first second) :
    second.datatypes = first.datatypes ∧ second.context = first.context := by
  obtain ⟨_, _, _, _, rfl⟩ := extends_
  exact ⟨rfl, rfl⟩

theorem FunctionDeclared.later_signature {declaration : FunctionDecl} {middle after : Runtime}
    {frame : FunctionFrame} {branches : List (Term × Term)}
    (declared : FunctionDeclared declaration middle after frame branches) :
    (after.addDefinition (frame.definition branches)).signature = declared.signature := by
  have arms := declared.arms.advances.extends_.signature_eq
  rw [← declared.of] at arms
  exact arms

theorem FunctionDeclared.eval_body {declaration : FunctionDecl} {middle after : Runtime}
    {frame : FunctionFrame} {branches : List (Term × Term)}
    (declared : FunctionDeclared declaration middle after frame branches)
    (formed : middle.WellFormed) {interp : Interp} (algebras : middle.Algebras interp)
    (arguments : Arguments interp.shapes declaration)
    (assigned : (frame.formals.map Formal.term).map assignment = arguments.1.map Element.plain) :
    ∃ arm ∈ declaration.arms, ∃ fields,
      matchedArgument declaration arguments.1 = some (.con arm.constructor fields) ∧
      eval interp (matchBody branches) assignment = denote declared.signature interp
        (armMeaning declaration arm arguments.1 fields) arm.value := by
  obtain ⟨arm, branch, fields, at_, chosen⟩ := declared.arm_at formed algebras arguments assigned
  obtain ⟨item, before, last, signature, elaborated, built, typed⟩ := at_.elaborated
  have formals := declared.formals
  rw [← declared.of] at formals
  obtain ⟨environment, body, meaning, -⟩ := elaborated.scope formals declared.flat at_.sorted
    built typed
  rw [declared.of, at_.values] at meaning
  have denotes := body.denotes interp assignment
  rw [meaning, signature] at denotes
  exact ⟨arm, at_.listed, fields, at_.matched, chosen.trans denotes⟩

/-- A declared function is total and lowered correctly. Exactly one function on the parameter types
satisfies the equations of the arms, and the body that the solver gets is what the arm of the
constructor of the matched argument denotes, its names bound to the fields in order. -/
theorem declareFunction_total (reached : Reached runtime) {declaration : FunctionDecl}
    (run : (declareFunction declaration).run runtime = .ok ((), later)) {interp : Interp}
    (respects : interp.Respects runtime.signature) (algebras : runtime.Algebras interp) :
    (∃! function, FunctionMeans later.signature (interp.define declaration function)
      declaration) ∧
    ∃ definition,
      later.context.definitions = definition :: runtime.context.definitions ∧
      definition.info.name = declaration.name ∧
      ∀ function : Arguments interp.shapes declaration → Value,
      ∀ arguments : Arguments interp.shapes declaration,
        ∃ arm ∈ declaration.arms, ∃ fields,
          matchedArgument declaration arguments.1 = some (.con arm.constructor fields) ∧
          (∀ other ∈ declaration.arms, other.constructor = arm.constructor → other = arm) ∧
          (∃ assignment : Assignment,
            definition.formals.map assignment = arguments.1.map Element.plain) ∧
          ∀ assignment : Assignment,
            definition.formals.map assignment = arguments.1.map Element.plain →
            eval (interp.define declaration function) definition.body assignment =
              denote later.signature (interp.define declaration function)
                (armMeaning declaration arm arguments.1 fields) arm.value := by
  have order := reached.inOrder
  obtain ⟨middle, after, frame, branches, advances, declared, rfl⟩ :=
    declareFunction_ok order.formed run
  have formed := advances.wellFormed order.formed
  obtain ⟨datatypes, context⟩ := advances.extends_.datatypes_eq
  rw [← advances.extends_.signature_eq] at respects
  have shapes : middle.Algebras interp := by
    intro name info found
    rw [datatypes] at found
    exact algebras name info found
  rw [declared.later_signature]
  refine ⟨?_, frame.definition branches, ?_, congrArg FunctionDecl.name declared.of, ?_⟩
  · obtain ⟨function, fixed, unique⟩ := (declared.descends formed shapes).existsUnique
    refine ⟨function, (declared.means_iff formed shapes respects function).mpr fixed, ?_⟩
    intro other means
    exact unique other ((declared.means_iff formed shapes respects other).mp means)
  · have same := declared.arms.advances.extends_.datatypes_eq.2
    rw [Runtime.addDefinition, same, ← context]
    rfl
  · intro function arguments
    have shapes : middle.Algebras (interp.define declaration function) := shapes
    obtain ⟨assignment, assigned⟩ := declared.assignment_of arguments
    obtain ⟨arm, listed, fields, matched, -⟩ := declared.eval_body formed shapes arguments assigned
    refine ⟨arm, listed, fields, matched, fun other member same =>
      arm_unique declared.arms.distinct member listed same, ⟨assignment, assigned⟩, ?_⟩
    intro assignment assigned
    obtain ⟨other, member, others, matched', value⟩ :=
      declared.eval_body formed shapes arguments assigned
    rw [matched] at matched'
    have parts : arm.constructor = other.constructor ∧ fields = others := by
      simpa using matched'
    obtain ⟨constructor, rfl⟩ := parts
    rw [arm_unique declared.arms.distinct listed member constructor]
    exact value

namespace Peano

/-- The constructor of zero. -/
def zero : Identifier := ⟨"Zero", by decide⟩

def succ : Identifier := ⟨"Succ", by decide⟩

def nat : Identifier := ⟨"Nat", by decide⟩

def double : Identifier := ⟨"double", by decide⟩

def n : Identifier := ⟨"n", by decide⟩

def m : Identifier := ⟨"m", by decide⟩

/-- `enum Nat { Zero, Succ(m: Nat) }`. -/
def enumDecl : EnumDecl where
  info := {}
  name := nat
  cases := [⟨{}, zero, []⟩, ⟨{}, succ, [⟨{}, m, .named {} nat⟩]⟩]

/-- `function double(n: Nat) -> Nat` with the arm for `Succ(m)` first. -/
def functionDecl : FunctionDecl where
  info := {}
  name := double
  parameters := [⟨{}, n, .named {} nat⟩]
  resultType := .named {} nat
  scrutinee := .name {} n
  arms := [⟨{}, succ, [⟨{}, m⟩], .call {} succ [.call {} succ [.call {} double [.name {} m]]]⟩,
    ⟨{}, zero, [], .call {} zero []⟩]

def start : Runtime :=
  match (declareEnum enumDecl).run .initial with
  | .ok (_, runtime) => runtime
  | .error _ => .initial

def interp : Interp where
  shapes name := if name = nat then some [(zero, []), (succ, [.named nat])] else none
  function _ _ := default
  relation _ _ := False
  outside _ _ _ := default

def datatype : DatatypeInfo where
  name := nat
  type := .datatype 2 nat
  cases := [⟨zero, [], [], .datatype nat⟩, ⟨succ, [m], [.datatype 2 nat], .datatype nat⟩]

theorem start_reached : Reached start := by
  have run : (declare (.enum enumDecl)).run .initial = .ok ((), start) := rfl
  exact .declared .initial run

theorem start_algebras : start.Algebras interp := by
  intro name info found
  have datatypes : start.datatypes = [(nat, datatype)] := rfl
  rw [datatypes] at found
  have member := Map.mem_of_lookup found
  rw [mem_singleton, Prod.mk.injEq] at member
  rw [member.1, member.2]
  rfl

/-- The natural numbers respect the sample's state. -/
theorem start_respects : interp.Respects start.signature := by
  have functions : start.functions = [] := rfl
  have cases : start.cases = [] := rfl
  have constructors : start.constructors = (datatype.cases.map fun item =>
      (item.name, datatype, item)).reverse := rfl
  have built : ∀ name declared fields, start.signature.constructors name = some (declared, fields) →
      declared = nat ∧ (name, fields) ∈ [(zero, []), (succ, [.named nat])] := by
    intro name declared fields known
    simp only [Runtime.signature, constructors, Option.map_eq_some_iff] at known
    obtain ⟨entry, found, same⟩ := known
    have member := Map.mem_of_lookup found
    simp only [datatype, map_cons, map_nil, reverse_cons, reverse_nil,
      nil_append, cons_append, mem_cons, not_mem_nil, or_false,
      Prod.mk.injEq] at member
    rcases member with ⟨rfl, rfl⟩ | ⟨rfl, rfl⟩
    · cases same
      exact ⟨rfl, by decide⟩
    · cases same
      exact ⟨rfl, by decide⟩
  refine ⟨⟨?_, ?_, ?_, ?_⟩, ?_⟩
  · intro name enumeration known
    simp [Runtime.signature, cases] at known
  · intro name declared fields known
    obtain ⟨rfl, member⟩ := built name declared fields known
    exact ⟨_, rfl, member⟩
  · intro name parameters result known
    simp [Runtime.signature, functions] at known
  · intro name declared fields known
    obtain ⟨-, member⟩ := built name declared fields known
    simp only [mem_cons, Prod.mk.injEq, not_mem_nil, or_false] at member
    rcases member with ⟨-, rfl⟩ | ⟨-, rfl⟩ <;> simp [FineType.isTable]
  · intro name parameters result known
    simp [Runtime.signature, functions] at known

end Peano

/-- Doubling is one function by its equations. -/
theorem declareFunction_total_double : ∃ later,
    (declareFunction Peano.functionDecl).run Peano.start = .ok ((), later) ∧
    ∃! function, FunctionMeans later.signature (Peano.interp.define Peano.functionDecl function)
      Peano.functionDecl := by
  obtain ⟨later, run⟩ : ∃ later,
    (declareFunction Peano.functionDecl).run Peano.start = .ok ((), later) := ⟨_, rfl⟩
  exact ⟨later, run, (declareFunction_total Peano.start_reached run Peano.start_respects
    Peano.start_algebras).1⟩

end Fine.RuntimeDetail
