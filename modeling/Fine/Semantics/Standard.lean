import Fine.Semantics.Denotation
import Fine.Semantics.Display

/-!
# What functions and checks mean

A function is the structural recursion that its arms write; a check claims its guarantees where its
assumptions hold.
-/

namespace Fine.Semantics

open Fine.Syntax

/-- Some case has fields. -/
def hasFields (declaration : EnumDecl) : Bool :=
  declaration.cases.any fun item => !item.fields.isEmpty

/-- Types of parameters. -/
def parameterTypes (parameters : List Parameter) : List FineType :=
  parameters.map fun parameter => FineType.ofSyntax parameter.type

def binds (names : List Identifier) (elements : List Element) : Meaning := fun name =>
  (names.zip elements).lookup name

/-- Elements for parameters. -/
def Fits (shapes : Shapes) (elements : List Element) (parameters : List Parameter) : Prop :=
  List.Forall₂ (Element.Inhabits shapes) elements (parameterTypes parameters)

def patternNames (bindings : List MatchBinding) (fields : List Value) :
    List (Identifier × Element) :=
  ((bindings.map MatchBinding.name).zip (fields.map Element.plain)).filter fun entry =>
    entry.1.text != "_"

def armMeaning (declaration : FunctionDecl) (arm : MatchArm) (arguments fields : List Value) :
    Meaning := fun name =>
  (binds (declaration.parameters.map Parameter.name) (arguments.map Element.plain) name).or
    ((patternNames arm.bindings fields).lookup name)

def matchedArgument (declaration : FunctionDecl) (arguments : List Value) : Option Value :=
  match declaration.scrutinee with
  | .name _ name => ((declaration.parameters.map Parameter.name).zip arguments).lookup name
  | _ => none

/-- Typed, and the recursion that its arms write. -/
structure FunctionMeans (sig : Signature) (interp : Interp) (declaration : FunctionDecl) :
    Prop where
  typed : ∀ arguments, List.Forall₂ (Inhabits interp.shapes) arguments
    (parameterTypes declaration.parameters) →
    Inhabits interp.shapes (interp.function declaration.name arguments)
      (FineType.ofSyntax declaration.resultType)
  equation : ∀ arguments, List.Forall₂ (Inhabits interp.shapes) arguments
    (parameterTypes declaration.parameters) → ∀ arm ∈ declaration.arms, ∀ fields,
    matchedArgument declaration arguments = some (.con arm.constructor fields) →
    interp.function declaration.name arguments =
      (denote sig interp (armMeaning declaration arm arguments fields) arm.value).toValue

/-- Arguments of the parameter types of a function. -/
abbrev Arguments (shapes : Shapes) (declaration : FunctionDecl) :=
  {arguments : List Value //
    List.Forall₂ (Inhabits shapes) arguments (parameterTypes declaration.parameters)}

/-- The declared function is the one on its arguments. -/
noncomputable def Interp.define (interp : Interp) (declaration : FunctionDecl)
    (function : Arguments interp.shapes declaration → Value) : Interp :=
  open Classical in
  { interp with
    function := fun name arguments =>
      if name = declaration.name then
        if typed : List.Forall₂ (Inhabits interp.shapes) arguments
            (parameterTypes declaration.parameters) then function ⟨arguments, typed⟩ else default
      else interp.function name arguments }

section

variable {interp : Interp} {declaration : FunctionDecl}
  (function : Arguments interp.shapes declaration → Value)

theorem Interp.define_function (arguments : Arguments interp.shapes declaration) :
    (interp.define declaration function).function declaration.name arguments.1 =
      function arguments := by
  simp only [Interp.define, if_pos, dif_pos arguments.2]

theorem Interp.define_untyped {arguments : List Value}
    (untyped : ¬ List.Forall₂ (Inhabits interp.shapes) arguments
      (parameterTypes declaration.parameters)) :
    (interp.define declaration function).function declaration.name arguments = default := by
  simp only [Interp.define, if_pos, dif_neg untyped]

theorem Interp.define_other {name : Identifier}
    (other : name ≠ declaration.name) (arguments : List Value) :
    (interp.define declaration function).function name arguments =
      interp.function name arguments := by
  simp only [Interp.define, if_neg other]

end

/-- The assumed conditions hold at the elements. -/
def HoldAll (sig : Signature) (interp : Interp) (meaning : Meaning) (conditions : List Expr) :
    Prop := ∀ condition ∈ conditions, (denote sig interp meaning condition).Holds

/-- Whenever the assumptions hold, the guarantees do. -/
def CheckHolds (sig : Signature) (interp : Interp) (declaration : CheckDecl) : Prop :=
  ∀ elements, Fits interp.shapes elements declaration.parameters →
    HoldAll sig interp (binds (declaration.parameters.map Parameter.name) elements)
      declaration.assumes →
    HoldAll sig interp (binds (declaration.parameters.map Parameter.name) elements)
      declaration.ensures

end Fine.Semantics
