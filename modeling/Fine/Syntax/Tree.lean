import Fine.Library.Scan

/-!
# Source syntax

Names are identifiers by construction, and integers are digits with an optional sign. `NodeInfo`
carries spans and node numbers; `strip` removes them.
-/

namespace Fine.Syntax

open List

/-- A place in the source: byte offset, line and column. -/
structure SourcePosition where
  offset : Nat := 0
  line : Nat := 1
  column : Nat := 1
deriving DecidableEq, Inhabited

/-- The places where a node begins and ends. -/
structure SourceSpan where
  start : SourcePosition := {}
  stop : SourcePosition := {}
deriving DecidableEq, Inhabited

/-- From the beginning of one span to the end of another. -/
def joined (first last : SourceSpan) : SourceSpan := ⟨first.start, last.stop⟩

/-- Kinds of tokens. -/
inductive TokenKind where
  | eof | identifier | integer
  | enumKw | letKw | modelKw | proofKw | predicateKw | solveKw | viewKw | constructorKw
  | arbitraryKw | overKw | requiresKw | witnessKw | functionKw | synthKw | checkKw
  | counterexampleKw | matchKw | inductsKw | assumesKw | ensuresKw | ifKw | elseKw | takesKw
  | givesKw | tableKw | trueKw | falseKw
  | leftBrace | rightBrace | leftParen | rightParen | colon | comma | semicolon | equal
  | fatArrow | equalEqual | greaterEqual | lessEqual | logicalAnd | logicalOr | plus | minus
  | question
deriving DecidableEq, Inhabited

def keywords : List (List Char × TokenKind) :=
  [("enum".toList, .enumKw), ("let".toList, .letKw), ("model".toList, .modelKw),
    ("proof".toList, .proofKw), ("predicate".toList, .predicateKw), ("solve".toList, .solveKw),
    ("view".toList, .viewKw), ("constructor".toList, .constructorKw),
    ("arbitrary".toList, .arbitraryKw), ("over".toList, .overKw), ("requires".toList, .requiresKw),
    ("witness".toList, .witnessKw), ("function".toList, .functionKw), ("synth".toList, .synthKw),
    ("check".toList, .checkKw), ("counterexample".toList, .counterexampleKw),
    ("match".toList, .matchKw), ("inducts".toList, .inductsKw), ("assumes".toList, .assumesKw),
    ("ensures".toList, .ensuresKw), ("if".toList, .ifKw), ("else".toList, .elseKw),
    ("takes".toList, .takesKw), ("gives".toList, .givesKw), ("table".toList, .tableKw),
    ("true".toList, .trueKw), ("false".toList, .falseKw)]

/-- Token kind of a word. -/
def keyword (text : List Char) : TokenKind := (keywords.lookup text).getD .identifier

theorem keyword_ne {kind : TokenKind} (word : kind ≠ .identifier)
    (reserved : ∀ entry ∈ keywords, entry.2 ≠ kind) (text : List Char) : keyword text ≠ kind := by
  unfold keyword
  cases found : keywords.lookup text with
  | none => exact word.symm
  | some other =>
    obtain ⟨before, after, shape, _⟩ := lookup_eq_some_iff.mp found
    exact reserved (text, other) (by rw [shape]; simp)

theorem keyword_ne_integer (text : List Char) : keyword text ≠ .integer :=
  keyword_ne (by decide) (by decide) text

def isNameStart (character : Char) : Bool := character.isAlpha || character == '_'

def isNameContinue (character : Char) : Bool := isNameStart character || character.isDigit

/-- Words that start like a name and go on like one. -/
def isWord : List Char → Bool
  | [] => false
  | first :: rest => isNameStart first && rest.all isNameContinue

def isIdentifier (text : List Char) : Bool := isWord text && keyword text == .identifier

/-- A name of the language. -/
structure Identifier where
  /-- The name as it stands in the source. -/
  text : String
  valid : isIdentifier text.toList = true
deriving DecidableEq

instance : Inhabited Identifier := ⟨⟨"_", by decide⟩⟩

@[ext]
theorem Identifier.ext {left right : Identifier} (same : left.text = right.text) :
    left = right := by
  cases left
  cases right
  cases same
  rfl

def isDigits (text : List Char) : Bool := !text.isEmpty && text.all Char.isDigit

/-- An integer literal as it stands in the source. -/
structure IntegerText where
  /-- A minus sign precedes the digits. -/
  negative : Bool
  digits : List Char
  /-- There is a digit, and there is nothing else. -/
  valid : isDigits digits = true
deriving DecidableEq

def IntegerText.text (literal : IntegerText) : List Char :=
  if literal.negative then '-' :: literal.digits else literal.digits

def IntegerText.value (literal : IntegerText) : Int :=
  if literal.negative then -(Scan.ofDecimal literal.digits : Int)
  else (Scan.ofDecimal literal.digits : Int)

theorem isDigits_decimal (number : Nat) : isDigits (Scan.decimal number) = true := by
  have digits := Scan.decimal_digits number
  have nonempty := Scan.decimal_ne_nil number
  simp only [isDigits, Bool.and_eq_true, Bool.not_eq_true', isEmpty_eq_false_iff, all_eq_true]
  exact ⟨nonempty, digits⟩

def IntegerText.ofInt (number : Int) : IntegerText where
  negative := number < 0
  digits := Scan.decimal number.natAbs
  valid := isDigits_decimal _

@[simp] theorem IntegerText.value_ofInt (number : Int) : (IntegerText.ofInt number).value = number := by
  simp only [value, ofInt, Scan.ofDecimal_decimal, decide_eq_true_eq]
  split <;> omega

/-- What a node remembers of its place in one parse. -/
structure NodeInfo where
  span : SourceSpan := {}
  nodeId : Nat := 0
deriving DecidableEq, Inhabited

/-- Types as written. -/
inductive TypeSyntax where
  | named (span : SourceSpan) (name : Identifier)
  | tuple (span : SourceSpan) (arguments : List TypeSyntax)
  | table (span : SourceSpan) (key value : TypeSyntax)

/-- Binary operators. -/
inductive BinaryOp where
  | equal | greaterEqual | lessEqual | logicalAnd | logicalOr | add | subtract
deriving DecidableEq

/-- Expressions as written. -/
inductive Expr where
  | name (info : NodeInfo) (name : Identifier)
  | boolean (info : NodeInfo) (value : Bool)
  | integer (info : NodeInfo) (literal : IntegerText)
  | tuple (info : NodeInfo) (elements : List Expr)
  | call (info : NodeInfo) (name : Identifier) (elements : List Expr)
  | binary (info : NodeInfo) (op : BinaryOp) (left right : Expr)
  | conditional (info : NodeInfo) (condition yes no : Expr)
  | hole (info : NodeInfo) (name : Identifier)

namespace Expr

/-- Place of an expression. -/
def info : Expr → NodeInfo
  | .name info _ => info
  | .boolean info _ => info
  | .integer info _ => info
  | .tuple info _ => info
  | .call info _ _ => info
  | .binary info _ _ _ => info
  | .conditional info _ _ _ => info
  | .hole info _ => info

/-- Span of an expression. -/
def span (expression : Expr) : SourceSpan := expression.info.span

def elements : Expr → List Expr
  | .name _ _ => []
  | .boolean _ _ => []
  | .integer _ _ => []
  | .tuple _ elements => elements
  | .call _ _ elements => elements
  | .binary _ _ left right => [left, right]
  | .conditional _ condition yes no => [condition, yes, no]
  | .hole _ _ => []

/-- Induction with the hypothesis for every member of a list. -/
@[induction_eliminator]
theorem members_induction {motive : Expr → Prop}
    (name : ∀ info name, motive (.name info name))
    (boolean : ∀ info value, motive (.boolean info value))
    (integer : ∀ info literal, motive (.integer info literal))
    (tuple : ∀ info elements, (∀ element ∈ elements, motive element) →
      motive (.tuple info elements))
    (call : ∀ info name elements, (∀ element ∈ elements, motive element) →
      motive (.call info name elements))
    (binary : ∀ info op left right, motive left → motive right →
      motive (.binary info op left right))
    (conditional : ∀ info condition yes no, motive condition → motive yes → motive no →
      motive (.conditional info condition yes no))
    (hole : ∀ info name, motive (.hole info name)) (expression : Expr) : motive expression :=
  @Expr.rec motive (fun elements => ∀ element ∈ elements, motive element)
    name boolean integer tuple call binary conditional hole
    (by simp) (fun _ _ head tail => by simpa using ⟨head, tail⟩) expression

mutual

/-- The expression without spans and node numbers. -/
def strip : Expr → Expr
  | .name _ identifier => .name {} identifier
  | .boolean _ value => .boolean {} value
  | .integer _ literal => .integer {} literal
  | .tuple _ elements => .tuple {} (stripAll elements)
  | .call _ callee elements => .call {} callee (stripAll elements)
  | .binary _ op left right => .binary {} op left.strip right.strip
  | .conditional _ condition yes no => .conditional {} condition.strip yes.strip no.strip
  | .hole _ identifier => .hole {} identifier

/-- Expressions without spans and numbers. -/
def stripAll : List Expr → List Expr
  | [] => []
  | expression :: expressions => expression.strip :: stripAll expressions

end

@[simp] theorem stripAll_eq_map (expressions : List Expr) :
    stripAll expressions = expressions.map strip := by
  induction expressions with
  | nil => rfl
  | cons expression expressions ih => rw [stripAll, ih, map_cons]

@[simp] theorem strip_strip (expression : Expr) : expression.strip.strip = expression.strip := by
  induction expression with
  | name | boolean | integer | hole => rfl
  | tuple info elements ih =>
    simp only [strip, stripAll_eq_map, map_map, Function.comp_def, tuple.injEq, true_and]
    exact map_congr_left ih
  | call info name elements ih =>
    simp only [strip, stripAll_eq_map, map_map, Function.comp_def, call.injEq, true_and]
    exact map_congr_left ih
  | binary info op left right leftIh rightIh => simp only [strip, leftIh, rightIh]
  | conditional info condition yes no conditionIh yesIh noIh =>
    simp only [strip, conditionIh, yesIh, noIh]

end Expr

mutual

/-- The type without spans. -/
def TypeSyntax.strip : TypeSyntax → TypeSyntax
  | .named _ name => .named {} name
  | .tuple _ arguments => .tuple {} (TypeSyntax.stripAll arguments)
  | .table _ key value => .table {} key.strip value.strip

def TypeSyntax.stripAll : List TypeSyntax → List TypeSyntax
  | [] => []
  | type :: types => type.strip :: TypeSyntax.stripAll types

end

def TypeSyntax.span : TypeSyntax → SourceSpan
  | .named span _ => span
  | .tuple span _ => span
  | .table span _ _ => span

/-- Field of an enum case. -/
structure EnumField where
  span : SourceSpan
  name : Identifier
  type : TypeSyntax

/-- Case of an enum. -/
structure EnumCase where
  span : SourceSpan
  name : Identifier
  fields : List EnumField

/-- Enumeration or datatype. -/
structure EnumDecl where
  info : NodeInfo
  name : Identifier
  cases : List EnumCase

/-- Entry of a table literal. -/
structure TableEntry where
  span : SourceSpan
  key : Expr
  value : Expr

/-- Table literal. -/
structure TableLiteral where
  span : SourceSpan
  defaultValue : Expr
  entries : List TableEntry

/-- Table binding. -/
structure LetDecl where
  info : NodeInfo
  name : Identifier
  type : TypeSyntax
  value : TableLiteral

/-- Model-shaped hole, or a concrete model witness. -/
structure ModelDecl where
  info : NodeInfo
  name : Identifier
  type : TypeSyntax
  value : Option TableLiteral

/-- Named argument of a solve declaration. -/
structure NamedArgument where
  span : SourceSpan
  name : Identifier
  value : Expr

/-- Solve declaration. -/
structure SolveDecl where
  info : NodeInfo
  name : Identifier
  takes : List NamedArgument
  gives : Expr

/-- Parameter of a declaration. -/
structure Parameter where
  span : SourceSpan
  name : Identifier
  type : TypeSyntax

/-- An erased proposition over a carrier. -/
structure ViewDecl where
  info : NodeInfo
  name : Identifier
  parameters : List Parameter
  carrier : TypeSyntax
  requirements : List Expr
  witness : Option Expr

/-- Arbitrary-fresh field of a predicate constructor. -/
structure ArbitraryPremise where
  info : NodeInfo
  binder : Identifier
  viewName : Identifier
  viewArguments : List Expr
  premises : List Expr

/-- Constructor of a predicate. -/
structure PredicateConstructor where
  span : SourceSpan
  name : Identifier
  parameters : List Parameter
  premises : List Expr
  arbitraryPremises : List ArbitraryPremise
  result : Expr

/-- Indexed proposition generated by its constructors. -/
structure PredicateDecl where
  info : NodeInfo
  name : Identifier
  indices : List Parameter
  constructors : List PredicateConstructor

/-- Binding of a match pattern. -/
structure MatchBinding where
  span : SourceSpan
  name : Identifier

/-- Arm of a match. -/
structure MatchArm where
  span : SourceSpan
  constructor : Identifier
  bindings : List MatchBinding
  value : Expr

/-- Function by a match on one parameter. -/
structure FunctionDecl where
  info : NodeInfo
  name : Identifier
  parameters : List Parameter
  resultType : TypeSyntax
  scrutinee : Expr
  arms : List MatchArm

/-- Synthesis declaration. -/
structure SynthDecl where
  info : NodeInfo
  name : Identifier
  parameters : List Parameter
  resultType : TypeSyntax
  scrutinee : Option Expr
  arms : List MatchArm
  ensures : List Expr

/-- Check or reusable proof. -/
structure CheckDecl where
  info : NodeInfo
  reusable : Bool
  name : Identifier
  parameters : List Parameter
  inductionParameter : Option Identifier
  inductionSpan : Option SourceSpan
  predicateInduction : Option Expr
  assumes : List Expr
  ensures : List Expr

/-- Assignment of a counterexample. -/
structure CounterexampleEntry where
  span : SourceSpan
  name : Identifier
  type : TypeSyntax
  value : Expr

/-- Returned witness of a refuted check. -/
structure CounterexampleDecl where
  info : NodeInfo
  name : Identifier
  entries : List CounterexampleEntry

/-- Declarations of a document. -/
inductive Declaration where
  | enum (declaration : EnumDecl)
  | letBinding (declaration : LetDecl)
  | model (declaration : ModelDecl)
  | solve (declaration : SolveDecl)
  | view (declaration : ViewDecl)
  | predicate (declaration : PredicateDecl)
  | function (declaration : FunctionDecl)
  | synth (declaration : SynthDecl)
  | check (declaration : CheckDecl)
  | counterexample (declaration : CounterexampleDecl)

/-- A parsed source. -/
structure Document where
  span : SourceSpan
  declarations : List Declaration

end Fine.Syntax
