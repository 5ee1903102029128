import Fine.Semantics.Display
import Fine.Runtime.Term

/-!
# State of the runtime

The tables that the runtime fills. A type object carries its address, which decides its identity.
What the recorder would write is left out: it never changes these tables.
-/

namespace Fine.RuntimeDetail

open Fine.Syntax Fine.Semantics

/-- A table from keys to entries. -/
abbrev Map (κ α : Type) := List (κ × α)

namespace Map

variable {κ α : Type} [DecidableEq κ]

/-- The key has an entry. -/
def contains (map : Map κ α) (key : κ) : Bool := (map.lookup key).isSome

def emplace (map : Map κ α) (key : κ) (entry : α) : Map κ α :=
  if map.contains key then map else (key, entry) :: map

/-- Add entries in order, each unless its key has one. -/
def emplaceAll (map : Map κ α) (entries : List (κ × α)) : Map κ α :=
  entries.foldl (fun map entry => map.emplace entry.1 entry.2) map

end Map

/-- Type objects, each with the address it was allocated at. -/
inductive RuntimeType where
  | boolean (address : Nat)
  | integer (address : Nat)
  | enumeration (address : Nat) (name : Identifier)
  | datatype (address : Nat) (name : Identifier)
  | tuple (address sequence : Nat) (first second : RuntimeType)
  | table (address : Nat) (key value : RuntimeType)
deriving DecidableEq

namespace RuntimeType

def address : RuntimeType → Nat
  | .boolean address => address
  | .integer address => address
  | .enumeration address _ => address
  | .datatype address _ => address
  | .tuple address _ _ _ => address
  | .table address _ _ => address

/-- The two pointers are one. -/
def same (left right : RuntimeType) : Bool := left.address == right.address

def sort : RuntimeType → Z3Sort
  | .boolean _ => .bool
  | .integer _ => .int
  | .enumeration _ name => .datatype name
  | .datatype _ name => .datatype name
  | .tuple _ sequence first second => .tuple sequence first.sort second.sort
  | .table _ key value => .array key.sort value.sort

def display : RuntimeType → String
  | .boolean _ => "Bool"
  | .integer _ => "Int"
  | .enumeration _ name => name.text
  | .datatype _ name => name.text
  | .tuple _ _ first second => "(" ++ first.display ++ ", " ++ second.display ++ ")"
  | .table _ key value => "Table(" ++ key.display ++ ", " ++ value.display ++ ")"

def meaning (type : RuntimeType) : FineType := type.sort.meaning

/-- The type is a table. -/
def isTable : RuntimeType → Bool
  | .table _ _ _ => true
  | _ => false

/-- Constructor of a tuple type; no other type has one. -/
def tupleConstructor : RuntimeType → FuncDecl
  | .tuple _ sequence first second => .tuple sequence first.sort second.sort
  | other => .tuple 0 other.sort other.sort

end RuntimeType

/-- An enumeration without fields. -/
structure EnumInfo where
  name : Identifier
  type : RuntimeType
  caseNames : List Identifier

def EnumInfo.value (info : EnumInfo) (index : Nat) : Term :=
  .app (.constructor (info.caseNames.getD index default) [] info.type.sort) []

/-- Constructor of a datatype. -/
structure DatatypeCaseInfo where
  name : Identifier
  fieldNames : List Identifier
  fieldTypes : List RuntimeType
  range : Z3Sort

namespace DatatypeCaseInfo

def constructor (item : DatatypeCaseInfo) : FuncDecl :=
  .constructor item.name (item.fieldTypes.map RuntimeType.sort) item.range

def recognizer (item : DatatypeCaseInfo) : FuncDecl := .recognizer item.name item.range

def accessor (item : DatatypeCaseInfo) (field : Nat) (type : RuntimeType) : FuncDecl :=
  .accessor item.name field item.range type.sort

end DatatypeCaseInfo

/-- A datatype. -/
structure DatatypeInfo where
  name : Identifier
  type : RuntimeType
  cases : List DatatypeCaseInfo

/-- A function. -/
structure FunctionInfo where
  name : Identifier
  parameterTypes : List RuntimeType
  resultType : RuntimeType

def FunctionInfo.declaration (info : FunctionInfo) : FuncDecl :=
  .function info.name (info.parameterTypes.map RuntimeType.sort) info.resultType.sort

/-- Arbitrary field of a predicate constructor. -/
structure ArbitraryField where
  binder : Identifier
  viewName : Identifier
  binderTerm : Const
  requirement : Term
  premiseTerms : List Term
  recursivePremiseIndices : List (List Term)
  availabilityWitness : Option Term

/-- Constructor of a predicate. -/
structure PredicateConstructorInfo where
  name : Identifier
  parameters : List Const
  resultIndices : List Term
  premiseTerms : List Term
  recursivePremiseIndices : List (List Term)
  arbitraryFields : List ArbitraryField
  premiseCount : Nat

/-- A predicate. -/
structure PredicateInfo where
  name : Identifier
  indexTypes : List RuntimeType
  constructors : List PredicateConstructorInfo
  hornComplete : Bool

/-- Relation of a predicate. -/
def PredicateInfo.relation (info : PredicateInfo) : FuncDecl :=
  .relation info.name (info.indexTypes.map RuntimeType.sort)

/-- A constrained view. -/
structure ViewInfo where
  name : Identifier
  parameterNames : List Identifier
  parameterTypes : List RuntimeType
  carrier : RuntimeType
  requirements : List Expr
  witness : Option Expr

/-- A table that is bound or to be found. -/
structure Binding where
  type : RuntimeType
  value : Term
  isModel : Bool
  span : SourceSpan

/-- A theorem that later queries may use. -/
structure AdmittedProof where
  name : Identifier
  theorem_ : Term

/-- An elaborated expression. -/
structure TypedExpression where
  type : RuntimeType
  expression : Term

/-- Elaborated expressions of the names in scope. -/
abbrev Environment := Map Identifier TypedExpression

/-- A recursive definition of the solver. -/
structure Definition where
  info : FunctionInfo
  formals : List Const
  body : Term

/-- What the solver has been told: datatypes and recursive definitions. -/
structure Context where
  datatypes : List (Identifier × List (Identifier × List Z3Sort)) := []
  definitions : List Definition := []

/-- Relations and named rules of the engine. -/
structure Fixedpoint where
  relations : List FuncDecl := []
  rules : List (String × Term) := []

/-- The runtime. -/
structure Runtime where
  context : Context
  output : List String
  fixedpoint : Fixedpoint
  /-- The next address that an allocation gives. -/
  nextAddress : Nat
  boolType : RuntimeType
  intType : RuntimeType
  types : Map Identifier RuntimeType
  enums : Map Identifier EnumInfo
  cases : Map Identifier (EnumInfo × Nat)
  datatypes : Map Identifier DatatypeInfo
  constructors : Map Identifier (DatatypeInfo × DatatypeCaseInfo)
  functions : Map Identifier FunctionInfo
  views : Map Identifier ViewInfo
  predicates : Map Identifier PredicateInfo
  bindings : Map Identifier Binding
  admittedProofs : List AdmittedProof
  compoundTypes : Map String RuntimeType
  valueNames : List Identifier
  tupleSequence : Nat

/-- The runtime before any declaration. -/
def Runtime.initial : Runtime where
  context := {}
  output := []
  fixedpoint := {}
  nextAddress := 2
  boolType := .boolean 0
  intType := .integer 1
  types := [(intName, .integer 1), (boolName, .boolean 0)]
  enums := []
  cases := []
  datatypes := []
  constructors := []
  functions := []
  views := []
  predicates := []
  bindings := []
  admittedProofs := []
  compoundTypes := []
  valueNames := []
  tupleSequence := 0

/-- Why a run ends without a result. -/
inductive Failure where
  /-- The document is rejected at a place. -/
  | semantic (span : SourceSpan) (message : String)
  /-- A fault that the source calls internal. -/
  | internal (message : String)
  /-- A printed witness does not parse. -/
  | syntax_ (failure : ParseFailure)
  | solver (message : String)

/-- Computations of the runtime. -/
abbrev Run := StateT Runtime (Except Failure)

/-- Reject the document. -/
def reject {α : Type} (span : SourceSpan) (message : String) : Run α := fun _ =>
  .error (.semantic span message)

/-- Fail by a fault that the source calls internal. -/
def internal {α : Type} (message : String) : Run α := fun _ => .error (.internal message)

end Fine.RuntimeDetail
