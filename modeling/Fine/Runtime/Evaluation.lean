import Fine.Runtime.Term

/-!
# Meaning of solver terms

A term's value depends only on its unbound constants. Replacing constants is evaluating at the
replacements' values.
-/

namespace Fine.RuntimeDetail

open Fine.Syntax Fine.Semantics

/-- What the constants mean. -/
abbrev Assignment := Const → Element

def fieldOf (interp : Interp) (constructor : Identifier) (field : Nat) (value : Value) :
    Value :=
  match value with
  | .con other fields =>
    if other = constructor then fields.getD field default
    else interp.outside constructor field value
  | _ => interp.outside constructor field value

/-- Constructor of a value. -/
def constructor? : Value → Option Identifier
  | .con constructor _ => some constructor
  | _ => none

/-- Meaning of a declaration. -/
noncomputable def FuncDecl.apply (interp : Interp) : FuncDecl → List Element → Element
  | .true, _ => .truth True
  | .false, _ => .truth False
  | .not, [operand] => .truth ¬ operand.Holds
  | .and, [left, right] => operate .logicalAnd left right
  | .or, [left, right] => operate .logicalOr left right
  | .implies, [left, right] => .truth (left.Holds → right.Holds)
  | .ite, [condition, yes, no] => choose condition yes no
  | .eq, [left, right] => operate .equal left right
  | .le, [left, right] => operate .lessEqual left right
  | .ge, [left, right] => operate .greaterEqual left right
  | .add, [left, right] => operate .add left right
  | .sub, [left, right] => operate .subtract left right
  | .constructor name _ _, arguments => .plain (.con name (arguments.map Element.toValue))
  | .recognizer name _, [argument] => .truth (constructor? argument.toValue = some name)
  | .accessor name field _ _, [argument] =>
    .plain (fieldOf interp name field argument.toValue)
  | .tuple _ _ _, [first, second] => .plain (.pair first.toValue second.toValue)
  | .function name _ _, arguments => .plain (interp.function name (arguments.map Element.toValue))
  | .relation name _, arguments => .truth (interp.relation name (arguments.map Element.toValue))
  | .constArray domain _, [argument] =>
    open Classical in .table fun key =>
      if Inhabits interp.shapes key domain.meaning then argument.toValue else default
  | .store _ _, [.table entry, key, value] =>
    open Classical in .table fun other =>
      if other = key.toValue then value.toValue else entry other
  | .select _ _, [.table entry, key] => .plain (entry key.toValue)
  | _, _ => default

/-- Only bound constants differ, and these are elements of their sorts. -/
structure Varies (shapes : Shapes) (bound : List Const) (first second : Assignment) : Prop where
  same : ∀ constant, constant ∉ bound → second constant = first constant
  sorted : ∀ constant ∈ bound, (second constant).Inhabits shapes constant.sort.meaning

mutual

/-- What a term means. -/
noncomputable def eval (interp : Interp) : Term → Assignment → Element
  | .constant constant, assignment => assignment constant
  | .numeral value, _ => .plain (.int value)
  | .app decl arguments, assignment => decl.apply interp (evalAll interp arguments assignment)
  | .quantified true bound body, assignment =>
    .truth (∀ other, Varies interp.shapes bound assignment other → (eval interp body other).Holds)
  | .quantified false bound body, assignment =>
    .truth (∃ other, Varies interp.shapes bound assignment other ∧ (eval interp body other).Holds)

noncomputable def evalAll (interp : Interp) : List Term → Assignment → List Element
  | [], _ => []
  | term :: terms, assignment => eval interp term assignment :: evalAll interp terms assignment

end

variable {interp : Interp} {assignment other : Assignment}

@[simp] theorem evalAll_eq (terms : List Term) (assignment : Assignment) :
    evalAll interp terms assignment = terms.map fun term => eval interp term assignment := by
  induction terms with
  | nil => rfl
  | cons term terms ih => rw [evalAll, ih, List.map_cons]

theorem eval_app (decl : FuncDecl) (arguments : List Term) (assignment : Assignment) :
    eval interp (.app decl arguments) assignment =
      decl.apply interp (arguments.map fun term => eval interp term assignment) := by
  rw [eval, evalAll_eq]

def Models (interp : Interp) (term : Term) (assignment : Assignment) : Prop :=
  (eval interp term assignment).Holds

variable {bound : List Const} {body : Term}

@[simp] theorem models_forall :
    Models interp (.quantified true bound body) assignment ↔
      ∀ other, Varies interp.shapes bound assignment other → Models interp body other := by
  simp [Models, eval]

@[simp] theorem models_exists :
    Models interp (.quantified false bound body) assignment ↔
      ∃ other, Varies interp.shapes bound assignment other ∧ Models interp body other := by
  simp [Models, eval]

theorem Varies.transfer {shapes : Shapes} {first second third : Assignment}
    (varies : Varies shapes bound first second) :
    Varies shapes bound third fun constant =>
      if constant ∈ bound then second constant else third constant where
  same constant free := by simp [free]
  sorted constant member := by simpa [member] using varies.sorted constant member

/-- A value depends only on unbound constants. -/
theorem eval_congr (term : Term)
    (agree : ∀ constant ∈ term.constants, assignment constant = other constant) :
    eval interp term assignment = eval interp term other := by
  induction term generalizing assignment other with
  | constant constant => exact agree constant (List.mem_singleton_self _)
  | numeral value => rfl
  | app decl arguments ih =>
    rw [eval_app, eval_app]
    congr 1
    refine List.map_congr_left fun argument member => ih argument member fun constant inside => ?_
    apply agree
    rw [Term.constants, Term.constantsAll_eq]
    exact List.mem_flatMap.mpr ⟨argument, member, inside⟩
  | quantified universal bound body ih =>
    have free : ∀ constant ∈ body.constants, constant ∉ bound →
        assignment constant = other constant := by
      intro constant inside outside
      exact agree constant (by simp [Term.constants, inside, outside])
    -- an assignment that varies the first gives one that varies the second, equal on the body
    have carry : ∀ {first second : Assignment},
        (∀ constant ∈ body.constants, constant ∉ bound → first constant = second constant) →
        ∀ varied, Varies interp.shapes bound first varied →
        ∃ varied', Varies interp.shapes bound second varied' ∧
          eval interp body varied = eval interp body varied' := by
      intro first second agree varied varies
      refine ⟨_, varies.transfer, ih fun constant inside => ?_⟩
      by_cases member : constant ∈ bound
      · simp [member]
      · simp only [member, if_false]
        rw [varies.same constant member, agree constant inside member]
    cases universal with
    | true =>
      apply Element.truth_congr
      constructor
      · intro all varied varies
        obtain ⟨varied', varies', same⟩ := carry (fun c i o => (free c i o).symm) varied varies
        rw [same]
        exact all varied' varies'
      · intro all varied varies
        obtain ⟨varied', varies', same⟩ := carry free varied varies
        rw [same]
        exact all varied' varies'
    | false =>
      apply Element.truth_congr
      constructor
      · rintro ⟨varied, varies, holds⟩
        obtain ⟨varied', varies', same⟩ := carry free varied varies
        exact ⟨varied', varies', same ▸ holds⟩
      · rintro ⟨varied, varies, holds⟩
        obtain ⟨varied', varies', same⟩ := carry (fun c i o => (free c i o).symm) varied varies
        exact ⟨varied', varies', same ▸ holds⟩

theorem models_congr (term : Term)
    (agree : ∀ constant ∈ term.constants, assignment constant = other constant) :
    Models interp term assignment ↔ Models interp term other := by
  rw [Models, Models, eval_congr term agree]

/-- The assignment with the values of replacements. -/
noncomputable def Assignment.replace (interp : Interp) (assignment : Assignment)
    (replacements : List (Const × Term)) : Assignment := fun constant =>
  match replacements.lookup constant with
  | some term => eval interp term assignment
  | none => assignment constant

theorem eval_substitute (replacements : List (Const × Term)) (term : Term)
    (plain : term.quantifierFree = true) :
    eval interp (term.substitute replacements) assignment =
      eval interp term (assignment.replace interp replacements) := by
  induction term with
  | constant constant =>
    rw [Term.substitute, eval, Assignment.replace]
    cases replacements.lookup constant <;> rfl
  | numeral value => rfl
  | app decl arguments ih =>
    rw [Term.quantifierFree, Term.quantifierFreeAll_iff] at plain
    rw [Term.substitute, Term.substituteAll_eq, eval_app, eval_app, List.map_map]
    congr 1
    exact List.map_congr_left fun argument member => ih argument member (plain argument member)
  | quantified => cases plain

namespace Term

/-- A Boolean literal. -/
def boolVal (value : Bool) : Term := .app (if value then .true else .false) []

def conj (left right : Term) : Term := .app .and [left, right]

def neg (operand : Term) : Term := .app .not [operand]

def imp (left right : Term) : Term := .app .implies [left, right]

def equals (left right : Term) : Term := .app .eq [left, right]

/-- Terms joined from the left. -/
def conjunction (first : Term) (terms : List Term) : Term := terms.foldl conj first

end Term

@[simp] theorem models_boolVal (value : Bool) :
    Models interp (.boolVal value) assignment ↔ value = true := by
  cases value <;> simp [Models, Term.boolVal, eval, FuncDecl.apply]

@[simp] theorem models_conj (left right : Term) : Models interp (left.conj right) assignment ↔
    Models interp left assignment ∧ Models interp right assignment := by
  simp [Models, Term.conj, eval_app, FuncDecl.apply, operate]

@[simp] theorem models_neg (operand : Term) : Models interp operand.neg assignment ↔
    ¬ Models interp operand assignment := by
  simp [Models, Term.neg, eval_app, FuncDecl.apply]

@[simp] theorem models_imp (left right : Term) : Models interp (left.imp right) assignment ↔
    (Models interp left assignment → Models interp right assignment) := by
  simp [Models, Term.imp, eval_app, FuncDecl.apply]

@[simp] theorem models_equals (left right : Term) : Models interp (left.equals right) assignment ↔
    eval interp left assignment = eval interp right assignment := by
  simp [Models, Term.equals, eval_app, FuncDecl.apply, operate]

@[simp] theorem models_conjunction (first : Term) (terms : List Term) :
    Models interp (.conjunction first terms) assignment ↔
      Models interp first assignment ∧ ∀ term ∈ terms, Models interp term assignment := by
  unfold Term.conjunction
  induction terms generalizing first with
  | nil => simp
  | cons term terms ih => simp [ih, and_assoc]

end Fine.RuntimeDetail
