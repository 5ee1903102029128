import Mathlib

/-!
# Solver terms

The solver's own terms, identified by structure. A symbol is null, a natural number or a C string,
which may be empty and is then not the null one.
-/

namespace Fine.Lift

open List

/-- Text of the generated syntax, one character a byte. -/
abbrev Text := List Char

/-- Bytes before the first NUL. -/
structure CString where
  text : Text
  /-- A NUL would have ended the string. -/
  noNul : Char.ofNat 0 ∉ text
deriving DecidableEq

/-- What `c_str()` of a byte string shows to the solver. -/
def CString.ofText (text : Text) : CString where
  text := text.takeWhile (· ≠ Char.ofNat 0)
  noNul member := by simpa using mem_takeWhile_imp member

@[simp] theorem CString.ofText_text (string : CString) : CString.ofText string.text = string := by
  obtain ⟨text, noNul⟩ := string
  have all : ∀ byte ∈ text, decide (byte ≠ Char.ofNat 0) = true := by
    intro byte member
    have different : byte ≠ Char.ofNat 0 := fun nul => noNul (nul ▸ member)
    simpa using different
  simp only [ofText, mk.injEq]
  exact takeWhile_eq_self_iff.mpr all

/-- Names of the solver. -/
inductive Symbol where
  | null
  /-- A number that an `int` holds. -/
  | int (value : Fin (2 ^ 31))
  | string (value : CString)
deriving DecidableEq

/-- `Z3_mk_string_symbol`: null for the empty C string. -/
def mkStringSymbol (string : CString) : Symbol :=
  if string.text = [] then .null else .string string

/-- A bound variable: its name and its sort. -/
structure Binder (S : Type) where
  /-- Name the solver keeps for the variable. -/
  name : Symbol
  sort : S
deriving DecidableEq

/-- Terms over sorts `S` and function declarations `D`. -/
inductive Term (S D : Type) where
  /-- A numeral, by the text the solver gives for it. -/
  | numeral (text : CString) (sort : S)
  /-- A declaration applied to any number of arguments. -/
  | app (declaration : D) (arguments : List (Term S D))
  /-- A bound variable, counted from the innermost binder. -/
  | var (index : Nat) (sort : S)
  /-- A universal or existential quantifier with its weight, identifiers and patterns. -/
  | quantifier (universal : Bool) (weight : Fin (2 ^ 32)) (qid skid : Symbol)
      (binders : List (Binder S)) (body : Term S D) (patterns : List (List (Term S D)))
      (noPatterns : List (Term S D))
  /-- A lambda, which carries neither weight nor patterns nor identifiers. -/
  | lambda (binders : List (Binder S)) (body : Term S D)

variable {S D : Type}

@[induction_eliminator]
theorem Term.members_induction {motive : Term S D → Prop}
    (numeral : ∀ text sort, motive (.numeral text sort))
    (app : ∀ declaration arguments, (∀ argument ∈ arguments, motive argument) →
      motive (.app declaration arguments))
    (var : ∀ index sort, motive (.var index sort))
    (quantifier : ∀ universal weight qid skid binders body patterns noPatterns, motive body →
      (∀ pattern ∈ patterns, ∀ term ∈ pattern, motive term) →
      (∀ term ∈ noPatterns, motive term) →
      motive (.quantifier universal weight qid skid binders body patterns noPatterns))
    (lambda : ∀ binders body, motive body → motive (.lambda binders body))
    (term : Term S D) : motive term :=
  @Term.rec S D motive (fun terms => ∀ term ∈ terms, motive term)
    (fun patterns => ∀ pattern ∈ patterns, ∀ term ∈ pattern, motive term)
    numeral app var quantifier lambda
    (by simp) (fun _ _ head tail => by simpa using ⟨head, tail⟩)
    (by simp) (fun _ _ head tail => by simpa using ⟨head, tail⟩) term

section Scope

mutual

/-- Variables are bound, at their sorts, in the scope or by a quantifier around them. No quantifier
is without binders. -/
def Term.Closed (scope : List S) : Term S D → Prop
  | .numeral _ _ => True
  | .app _ arguments => Term.AllClosed scope arguments
  | .var index sort => scope.reverse[index]? = some sort
  | .quantifier _ _ _ _ binders body patterns noPatterns =>
    binders ≠ [] ∧ Term.Closed (scope ++ binders.map (·.sort)) body ∧
      Term.PatternsClosed (scope ++ binders.map (·.sort)) patterns ∧
      Term.AllClosed (scope ++ binders.map (·.sort)) noPatterns
  | .lambda binders body =>
    binders ≠ [] ∧ Term.Closed (scope ++ binders.map (·.sort)) body

def Term.AllClosed (scope : List S) : List (Term S D) → Prop
  | [] => True
  | term :: terms => Term.Closed scope term ∧ Term.AllClosed scope terms

def Term.PatternsClosed (scope : List S) : List (List (Term S D)) → Prop
  | [] => True
  | pattern :: patterns => Term.AllClosed scope pattern ∧ Term.PatternsClosed scope patterns

end

end Scope

section Reread

/-- The symbol that the solver makes from the printed form. -/
def Symbol.reread : Symbol → Symbol
  | .null => .null
  | .int value => .int value
  | .string value => mkStringSymbol value

theorem Symbol.reread_eq_self (symbol : Symbol) :
    symbol.reread = symbol ↔ ∀ string, symbol = .string string → string.text ≠ [] := by
  cases symbol with
  | null | int value => simp [reread]
  | string value =>
    by_cases empty : value.text = []
    · simp [reread, mkStringSymbol, empty]
    · simp [reread, mkStringSymbol, empty]

mutual

/-- The term with symbols as they are made from their printed forms. -/
def Term.reread : Term S D → Term S D
  | .numeral text sort => .numeral text sort
  | .app declaration arguments => .app declaration (Term.rereadAll arguments)
  | .var index sort => .var index sort
  | .quantifier universal weight qid skid binders body patterns noPatterns =>
    .quantifier universal weight qid.reread skid.reread
      (binders.map fun binder => ⟨binder.name.reread, binder.sort⟩) body.reread
      (Term.rereadPatterns patterns) (Term.rereadAll noPatterns)
  | .lambda binders body =>
    .lambda (binders.map fun binder => ⟨binder.name.reread, binder.sort⟩) body.reread

def Term.rereadAll : List (Term S D) → List (Term S D)
  | [] => []
  | term :: terms => term.reread :: Term.rereadAll terms

/-- Every pattern reread. -/
def Term.rereadPatterns : List (List (Term S D)) → List (List (Term S D))
  | [] => []
  | pattern :: patterns => Term.rereadAll pattern :: Term.rereadPatterns patterns

end

theorem Term.rereadAll_eq_map (terms : List (Term S D)) :
    Term.rereadAll terms = terms.map Term.reread := by
  induction terms with
  | nil => rfl
  | cons term terms ih => rw [Term.rereadAll, ih, map_cons]

theorem Term.rereadPatterns_eq_map (patterns : List (List (Term S D))) :
    Term.rereadPatterns patterns = patterns.map (List.map Term.reread) := by
  induction patterns with
  | nil => rfl
  | cons pattern patterns ih =>
    rw [Term.rereadPatterns, ih, Term.rereadAll_eq_map, map_cons]

mutual

/-- Every quantifier identifier and binder name of a term. -/
def Term.symbols : Term S D → List Symbol
  | .numeral _ _ => []
  | .app _ arguments => Term.symbolsAll arguments
  | .var _ _ => []
  | .quantifier _ _ qid skid binders body patterns noPatterns =>
    qid :: skid :: binders.map (·.name) ++ body.symbols ++ Term.symbolsPatterns patterns ++
      Term.symbolsAll noPatterns
  | .lambda binders body => binders.map (·.name) ++ body.symbols

def Term.symbolsAll : List (Term S D) → List Symbol
  | [] => []
  | term :: terms => term.symbols ++ Term.symbolsAll terms

def Term.symbolsPatterns : List (List (Term S D)) → List Symbol
  | [] => []
  | pattern :: patterns => Term.symbolsAll pattern ++ Term.symbolsPatterns patterns

end

variable {terms : List (Term S D)}

theorem Term.mem_symbolsAll {symbol : Symbol} :
    symbol ∈ Term.symbolsAll terms ↔ ∃ term ∈ terms, symbol ∈ term.symbols := by
  induction terms with
  | nil => simp [Term.symbolsAll]
  | cons term terms ih => simp [Term.symbolsAll, ih]

private theorem map_eq_self_iff {α : Type} {f : α → α} {values : List α} :
    values.map f = values ↔ ∀ value ∈ values, f value = value := by
  have pointwise := map_eq_map_iff (f := f) (g := id) (l := values)
  rwa [map_id] at pointwise

private theorem binders_reread_eq_self {binders : List (Binder S)} :
    (binders.map fun binder => (⟨binder.name.reread, binder.sort⟩ : Binder S)) = binders ↔
      ∀ symbol ∈ binders.map (·.name), symbol.reread = symbol := by
  rw [map_eq_self_iff, forall_mem_map]
  refine forall₂_congr fun binder _ => ⟨congrArg Binder.name, fun same => ?_⟩
  rw [same]

/-- A list of terms is rebuilt just if its symbols are, if each term is. -/
private theorem rereadAll_eq_self
    (each : ∀ term ∈ terms, term.reread = term ↔ ∀ symbol ∈ term.symbols, symbol.reread = symbol) :
    Term.rereadAll terms = terms ↔ ∀ symbol ∈ Term.symbolsAll terms, symbol.reread = symbol := by
  rw [Term.rereadAll_eq_map, map_eq_self_iff, forall₂_congr each]
  simp only [Term.mem_symbolsAll]
  exact ⟨fun same symbol ⟨term, member, inside⟩ => same term member symbol inside,
    fun same term member symbol inside => same symbol ⟨term, member, inside⟩⟩

/-- A list of patterns is rebuilt just if its symbols are, if each term is. -/
private theorem rereadPatterns_eq_self {patterns : List (List (Term S D))}
    (each : ∀ pattern ∈ patterns, ∀ term ∈ pattern,
      term.reread = term ↔ ∀ symbol ∈ term.symbols, symbol.reread = symbol) :
    Term.rereadPatterns patterns = patterns ↔
      ∀ symbol ∈ Term.symbolsPatterns patterns, symbol.reread = symbol := by
  induction patterns with
  | nil => simp [Term.rereadPatterns, Term.symbolsPatterns]
  | cons pattern patterns ih =>
    have head := rereadAll_eq_self (each pattern (by simp))
    have tail := ih fun later member => each later (by simp [member])
    simp only [Term.rereadPatterns, Term.symbolsPatterns, List.cons.injEq, head, tail,
      forall_mem_append]

theorem Term.reread_eq_self (term : Term S D) :
    term.reread = term ↔ ∀ symbol ∈ term.symbols, symbol.reread = symbol := by
  induction term with
  | numeral text sort | var index sort => simp [Term.reread, Term.symbols]
  | app declaration arguments ih =>
    simp only [Term.reread, Term.symbols, Term.app.injEq, true_and, rereadAll_eq_self ih]
  | quantifier universal weight qid skid binders body patterns noPatterns bodyIh patternsIh
      noPatternsIh =>
    simp only [Term.reread, Term.symbols, Term.quantifier.injEq, true_and, bodyIh,
      binders_reread_eq_self, rereadPatterns_eq_self patternsIh, rereadAll_eq_self noPatternsIh,
      cons_append, forall_mem_cons, forall_mem_append, and_assoc]
  | lambda binders body ih =>
    simp only [Term.reread, Term.symbols, Term.lambda.injEq, binders_reread_eq_self, ih,
      forall_mem_append]

end Reread

end Fine.Lift
