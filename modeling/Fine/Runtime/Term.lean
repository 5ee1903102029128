import Fine.Semantics.Denotation

/-!
# Solver terms

A declaration carries its signature, so a term has a sort. Quantifiers are built over constants,
which stand for themselves in the body.
-/

namespace Fine.RuntimeDetail

open Fine.Syntax Fine.Semantics

/-- Sorts of the solver, one per sequence number for tuples. -/
inductive Z3Sort where
  | bool
  | int
  | datatype (name : Identifier)
  | tuple (sequence : Nat) (first second : Z3Sort)
  | array (domain range : Z3Sort)
deriving DecidableEq

def Z3Sort.meaning : Z3Sort → FineType
  | .bool => .bool
  | .int => .int
  | .datatype name => .named name
  | .tuple _ first second => .tuple first.meaning second.meaning
  | .array domain range => .table domain.meaning range.meaning

/-- A constant of the solver. -/
structure Const where
  name : String
  sort : Z3Sort
deriving DecidableEq

/-- Declarations of the solver that the runtime applies. -/
inductive FuncDecl where
  | true | false | not | and | or | implies | ite | eq | le | ge | add | sub
  | constructor (name : Identifier) (fields : List Z3Sort) (range : Z3Sort)
  | recognizer (constructor : Identifier) (domain : Z3Sort)
  | accessor (constructor : Identifier) (field : Nat) (domain range : Z3Sort)
  | tuple (sequence : Nat) (first second : Z3Sort)
  | function (name : Identifier) (domain : List Z3Sort) (range : Z3Sort)
  | relation (name : Identifier) (domain : List Z3Sort)
  | constArray (domain range : Z3Sort)
  | store (domain range : Z3Sort)
  | select (domain range : Z3Sort)
deriving DecidableEq

/-- Sort of an application, if the arguments fit. -/
def FuncDecl.range? : FuncDecl → List Z3Sort → Option Z3Sort
  | .true, [] => some .bool
  | .false, [] => some .bool
  | .not, [.bool] => some .bool
  | .and, [.bool, .bool] => some .bool
  | .or, [.bool, .bool] => some .bool
  | .implies, [.bool, .bool] => some .bool
  | .ite, [.bool, yes, no] => if yes = no then some yes else none
  | .eq, [left, right] => if left = right then some .bool else none
  | .le, [.int, .int] => some .bool
  | .ge, [.int, .int] => some .bool
  | .add, [.int, .int] => some .int
  | .sub, [.int, .int] => some .int
  | .constructor _ fields range, arguments => if arguments = fields then some range else none
  | .recognizer _ domain, [argument] => if argument = domain then some .bool else none
  | .accessor _ _ domain range, [argument] => if argument = domain then some range else none
  | .tuple sequence first second, arguments =>
    if arguments = [first, second] then some (.tuple sequence first second) else none
  | .function _ domain range, arguments => if arguments = domain then some range else none
  | .relation _ domain, arguments => if arguments = domain then some .bool else none
  | .constArray domain range, [argument] =>
    if argument = range then some (.array domain range) else none
  | .store domain range, arguments =>
    if arguments = [.array domain range, domain, range] then some (.array domain range) else none
  | .select domain range, arguments =>
    if arguments = [.array domain range, domain] then some range else none
  | _, _ => none

/-- Terms of the solver. -/
inductive Term where
  | constant (constant : Const)
  | numeral (value : Int)
  | app (decl : FuncDecl) (arguments : List Term)
  | quantified (universal : Bool) (bound : List Const) (body : Term)

instance : Inhabited Term := ⟨.numeral 0⟩

namespace Term

@[induction_eliminator]
theorem members_induction {motive : Term → Prop} (constant : ∀ constant, motive (.constant constant))
    (numeral : ∀ value, motive (.numeral value))
    (app : ∀ decl arguments, (∀ argument ∈ arguments, motive argument) →
      motive (.app decl arguments))
    (quantified : ∀ universal bound body, motive body → motive (.quantified universal bound body))
    (term : Term) : motive term :=
  @Term.rec motive (fun arguments => ∀ argument ∈ arguments, motive argument) constant numeral app
    quantified (by simp) (fun _ _ head tail => by simpa using ⟨head, tail⟩) term

mutual

def same : Term → Term → Bool
  | .constant left, .constant right => left == right
  | .numeral left, .numeral right => left == right
  | .app left arguments, .app right others => left == right && sameAll arguments others
  | .quantified left bound body, .quantified right others other =>
    left == right && bound == others && body.same other
  | _, _ => false

def sameAll : List Term → List Term → Bool
  | [], [] => true
  | left :: lefts, right :: rights => left.same right && sameAll lefts rights
  | _, _ => false

end

theorem sameAll_iff {lefts : List Term}
    (each : ∀ left ∈ lefts, ∀ right, left.same right = true ↔ left = right) (rights : List Term) :
    sameAll lefts rights = true ↔ lefts = rights := by
  induction lefts generalizing rights with
  | nil => cases rights <;> simp [sameAll]
  | cons left lefts ih =>
    cases rights with
    | nil => simp [sameAll]
    | cons right rights =>
      rw [sameAll, Bool.and_eq_true, each left (by simp), ih fun other member =>
        each other (by simp [member]), List.cons.injEq]

theorem same_iff (left right : Term) : left.same right = true ↔ left = right := by
  induction left generalizing right with
  | constant | numeral => cases right <;> simp [same]
  | app decl arguments ih =>
    cases right with
    | app other others => simp [same, sameAll_iff ih others]
    | constant | numeral | quantified => simp [same]
  | quantified universal bound body ih =>
    cases right with
    | quantified other others body' => simp [same, ih body', and_assoc]
    | constant | numeral | app => simp [same]

instance : DecidableEq Term := fun left right => decidable_of_iff _ (same_iff left right)

mutual

/-- Sort of a term, if all its applications fit. -/
def sort? : Term → Option Z3Sort
  | .constant symbol => some symbol.sort
  | .numeral _ => some .int
  | .app decl arguments => (sorts? arguments).bind decl.range?
  | .quantified _ _ body => if body.sort? = some .bool then some .bool else none

def sorts? : List Term → Option (List Z3Sort)
  | [] => some []
  | term :: terms => do
    let sort ← term.sort?
    let sorts ← sorts? terms
    pure (sort :: sorts)

end

mutual

def constants : Term → List Const
  | .constant symbol => [symbol]
  | .numeral _ => []
  | .app _ arguments => constantsAll arguments
  | .quantified _ bound body => body.constants.filter fun constant => constant ∉ bound

def constantsAll : List Term → List Const
  | [] => []
  | term :: terms => term.constants ++ constantsAll terms

end

@[simp] theorem constantsAll_eq (terms : List Term) :
    constantsAll terms = terms.flatMap constants := by
  induction terms with
  | nil => rfl
  | cons term terms ih => rw [constantsAll, ih, List.flatMap_cons]

mutual

/-- Replace constants by terms, all at once. -/
def substitute (replacements : List (Const × Term)) : Term → Term
  | .constant symbol => (replacements.lookup symbol).getD (.constant symbol)
  | .numeral value => .numeral value
  | .app decl arguments => .app decl (substituteAll replacements arguments)
  | .quantified universal bound body =>
    .quantified universal bound
      (body.substitute (replacements.filter fun replacement => replacement.1 ∉ bound))

def substituteAll (replacements : List (Const × Term)) : List Term → List Term
  | [] => []
  | term :: terms => term.substitute replacements :: substituteAll replacements terms

end

@[simp] theorem substituteAll_eq (replacements : List (Const × Term)) (terms : List Term) :
    substituteAll replacements terms = terms.map (substitute replacements) := by
  induction terms with
  | nil => rfl
  | cons term terms ih => rw [substituteAll, ih, List.map_cons]

mutual

def quantifierFree : Term → Bool
  | .constant _ => true
  | .numeral _ => true
  | .app _ arguments => quantifierFreeAll arguments
  | .quantified _ _ _ => false

/-- No term has a quantifier. -/
def quantifierFreeAll : List Term → Bool
  | [] => true
  | term :: terms => term.quantifierFree && quantifierFreeAll terms

end

@[simp] theorem quantifierFreeAll_iff (terms : List Term) :
    quantifierFreeAll terms = true ↔ ∀ term ∈ terms, term.quantifierFree = true := by
  induction terms with
  | nil => simp [quantifierFreeAll]
  | cons term terms ih => simp [quantifierFreeAll, ih]

end Term

end Fine.RuntimeDetail
