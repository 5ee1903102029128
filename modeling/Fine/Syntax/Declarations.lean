import Fine.Syntax.Parser

/-!
# Declarations

The parsers of the ten kinds of declarations and of a document.
-/

namespace Fine.Syntax

def typedName (nameContext colonContext : String) (fuel : Nat) :
    Parser (SourceSpan × Identifier × TypeSyntax) := do
  let name ← takeIdentifier nameContext
  let _ ← take .colon colonContext
  let declared ← type fuel
  pure (joined name.span declared.span, name.name, declared)

/-- Field of an enum case. -/
def enumField (fuel : Nat) : Parser EnumField := do
  let field ← typedName "as a constructor field name" "after the constructor field name" fuel
  pure ⟨field.1, field.2.1, field.2.2⟩

/-- Fields of an enum case after the opening parenthesis. -/
def enumFields (item : Name) (fuel : Nat) : Parser EnumCase := do
  let fields ← separatedItems .rightParen "expected `,` or `)` after a constructor field"
    (enumField fuel) fuel
  let close ← take .rightParen "to close the constructor fields"
  pure ⟨joined item.span close.span, item.name, fields⟩

def enumCase (fuel : Nat) : Parser EnumCase := do
  let item ← takeIdentifier "as an enum case"
  if ← accept .leftParen then enumFields item fuel
  else pure ⟨item.span, item.name, []⟩

/-- Cases of an enum: one, then one after each comma that is not trailing. -/
def enumCases (fuel : Nat) : Nat → Parser (List EnumCase)
  | 0 => exhausted
  | rounds + 1 => do
    let head ← enumCase fuel
    if ← accept .comma then do
      if (← currentKind) = .rightBrace then pure [head]
      else do
        let tail ← enumCases fuel rounds
        pure (head :: tail)
    else pure [head]

/-- Refuse an empty block. -/
def nonempty (condition : Bool) (message : String) : Parser Unit :=
  if condition then pure () else fail message

/-- Enumeration or datatype. -/
def enumDecl (fuel : Nat) : Parser EnumDecl := do
  let first ← take .enumKw ""
  let name ← takeIdentifier "after `enum`"
  let _ ← take .leftBrace "after the enum name"
  let kind ← currentKind
  nonempty (kind != .rightBrace) "an enum needs at least one case"
  let cases ← enumCases fuel fuel
  let close ← take .rightBrace "to close the enum"
  let info ← identified (joined first.span close.span)
  pure ⟨info, name.name, cases⟩

/-- Entry of a table literal. -/
def tableEntry (fuel : Nat) : Parser TableEntry := do
  let kind ← currentKind
  nonempty (kind != .eof) "expected `\x7d` to close the table literal"
  let key ← expr fuel
  let _ ← take .colon "between a table key and value"
  let value ← expr fuel
  pure ⟨joined key.span value.span, key, value⟩

def defaultOption (name : Name) : Parser Unit :=
  if name.name.text = "default" then pure ()
  else fun _ => .error (.parse ⟨name.span,
    "expected the table option `default`; found `" ++ name.name.text ++ "`"⟩)

/-- Table literal. -/
def tableLiteral (fuel : Nat) : Parser TableLiteral := do
  let first ← take .tableKw "as the value of a table binding"
  let _ ← take .leftParen "after `table`"
  let name ← takeIdentifier "for the table option `default`"
  defaultOption name
  let _ ← take .colon "after `default`"
  let defaultValue ← expr fuel
  let _ ← take .rightParen "after the default value"
  let _ ← take .leftBrace "to begin the table entries"
  let entries ← separatedItems .rightBrace "expected `,` or `\x7d` after a table entry"
    (tableEntry fuel) fuel
  let close ← take .rightBrace ""
  pure ⟨joined first.span close.span, defaultValue, entries⟩

/-- A table binding needs a table type. -/
def requireTable (message : String) : TypeSyntax → Parser Unit
  | .table _ _ _ => pure ()
  | _ => fail message

/-- Table binding. -/
def letDecl (fuel : Nat) : Parser LetDecl := do
  let first ← take .letKw ""
  let name ← takeIdentifier "after `let`"
  let _ ← take .colon "after the binding name"
  let declared ← type fuel
  requireTable "a `let` in this source slice must have a `Table(key, value)` type" declared
  let _ ← take .equal "after the binding type"
  let value ← tableLiteral fuel
  let close ← take .semicolon "after the table literal"
  let info ← identified (joined first.span close.span)
  pure ⟨info, name.name, declared, value⟩

/-- Value of a model declaration, if there is one. -/
def modelValue (fuel : Nat) : Parser (Option TableLiteral) := do
  if ← accept .equal then do
    let value ← tableLiteral fuel
    pure (some value)
  else pure none

/-- Model-shaped hole, or a concrete model witness. -/
def modelDecl (fuel : Nat) : Parser ModelDecl := do
  let first ← take .modelKw ""
  let name ← takeIdentifier "after `model`"
  let _ ← take .colon "after the model-hole name"
  let declared ← type fuel
  requireTable "a `model` declaration must have an array-shaped `Table(key, value)` type"
    declared
  let value ← modelValue fuel
  let close ← take .semicolon "after the model declaration"
  let info ← identified (joined first.span close.span)
  pure ⟨info, name.name, declared, value⟩

def namedArgument (fuel : Nat) : Parser NamedArgument := do
  let name ← takeIdentifier "as a named argument"
  let _ ← take .colon "after the argument name"
  let value ← expr fuel
  pure ⟨joined name.span value.span, name.name, value⟩

/-- Named arguments in parentheses. -/
def arguments (fuel : Nat) : Parser (List NamedArgument) := do
  let _ ← take .leftParen ""
  let result ← separatedItems .rightParen "expected `,` or `)` after a named argument"
    (namedArgument fuel) fuel
  let _ ← take .rightParen ""
  pure result

/-- Solve declaration. -/
def solveDecl (fuel : Nat) : Parser SolveDecl := do
  let first ← take .solveKw ""
  let name ← takeIdentifier "after `solve`"
  let _ ← take .leftBrace "after the solve name"
  let _ ← take .takesKw "as the first solve clause"
  let takes ← arguments fuel
  let _ ← take .semicolon "after `takes(...)`"
  let _ ← take .givesKw "after the `takes` clause"
  let _ ← take .leftParen "after `gives`"
  let gives ← expr fuel
  let _ ← take .rightParen "after the result expression"
  let _ ← take .semicolon "after `gives(...)`"
  let close ← take .rightBrace "to close the solve declaration"
  let info ← identified (joined first.span close.span)
  pure ⟨info, name.name, takes, gives⟩

def parameter (fuel : Nat) : Parser Parameter := do
  let name ← typedName "as a parameter name" "after the parameter name" fuel
  pure ⟨name.1, name.2.1, name.2.2⟩

/-- Parameters in parentheses. -/
def parameters (fuel : Nat) : Parser (List Parameter) := do
  let _ ← take .leftParen ""
  let result ← separatedItems .rightParen "expected `,` or `)` after a parameter"
    (parameter fuel) fuel
  let _ ← take .rightParen ""
  pure result

def condition (context : String) (fuel : Nat) : Parser Expr := do
  let expression ← expr fuel
  let _ ← take .semicolon context
  pure expression

/-- Expressions with semicolons, up to the closing brace. -/
def conditions (context : String) (fuel : Nat) : Parser (List Expr) :=
  itemsUntil .rightBrace (condition context fuel) fuel

/-- A named clause of conditions. -/
def conditionBlock (keyword : TokenKind) (description : String) (allowEmpty : Bool) (fuel : Nat) :
    Parser (List Expr) := do
  let _ ← take keyword description
  let _ ← take .leftBrace "after the clause name"
  let result ← conditions "after a condition" fuel
  nonempty (allowEmpty || !result.isEmpty) "the clause needs at least one condition"
  let _ ← take .rightBrace "to close the clause"
  pure result

def viewWitness (fuel : Nat) : Parser (Option Expr) := do
  if ← accept .witnessKw then do
    let witness ← condition "after the view witness" fuel
    pure (some witness)
  else pure none

/-- Constrained view. -/
def viewDecl (fuel : Nat) : Parser ViewDecl := do
  let first ← take .viewKw ""
  let name ← takeIdentifier "after `view`"
  let inputs ← parameters fuel
  let _ ← take .overKw "after the view parameters"
  let carrier ← type fuel
  let _ ← take .leftBrace "after the view carrier"
  let requirements ← conditionBlock .requiresKw "as the view proposition" false fuel
  let witness ← viewWitness fuel
  let close ← take .rightBrace "to close the view declaration"
  let info ← identified (joined first.span close.span)
  pure ⟨info, name.name, inputs, carrier, requirements, witness⟩

/-- Arbitrary-fresh field of a predicate constructor. -/
def arbitraryPremise (fuel : Nat) : Parser ArbitraryPremise := do
  let first ← take .arbitraryKw ""
  let binder ← takeIdentifier "as the arbitrary-fresh name"
  let _ ← take .colon "after the arbitrary-fresh name"
  let view ← takeIdentifier "as a constrained view"
  let _ ← take .leftParen "after the constrained-view name"
  let viewArguments ← separatedItems .rightParen
    "expected `,` or `)` after a constrained-view argument" (expr fuel) fuel
  let _ ← take .rightParen "to close the constrained-view arguments"
  let _ ← take .leftBrace "before the arbitrary-fresh premises"
  let premises ← conditions "after an arbitrary-fresh premise" fuel
  let close ← take .rightBrace "to close the arbitrary-fresh premise"
  nonempty (!premises.isEmpty) "an arbitrary-fresh field needs at least one recursive premise"
  let info ← identified (joined first.span close.span)
  pure ⟨info, binder.name, view.name, viewArguments, premises⟩

/-- Premises and arbitrary fields of a constructor, in any order. -/
def constructorPremises (fuel : Nat) : Nat → Parser (List Expr × List ArbitraryPremise)
  | 0 => exhausted
  | rounds + 1 => do
    let kind ← currentKind
    if kind = .rightBrace then pure ([], [])
    else if kind = .arbitraryKw then do
      let field ← arbitraryPremise fuel
      let later ← constructorPremises fuel rounds
      pure (later.1, field :: later.2)
    else do
      let premise ← condition "after a predicate-constructor premise" fuel
      let later ← constructorPremises fuel rounds
      pure (premise :: later.1, later.2)

def predicateConstructor (fuel : Nat) : Parser PredicateConstructor := do
  let first ← take .constructorKw "in a predicate"
  let name ← takeIdentifier "after `constructor`"
  let inputs ← parameters fuel
  let _ ← take .leftBrace "after the constructor parameters"
  let _ ← take .takesKw "as the first constructor clause"
  let _ ← take .leftBrace "after `takes`"
  let premises ← constructorPremises fuel fuel
  let _ ← take .rightBrace "to close `takes`"
  let _ ← take .givesKw "after `takes`"
  let result ← condition "after the constructor result" fuel
  let close ← take .rightBrace "to close the constructor"
  pure ⟨joined first.span close.span, name.name, inputs, premises.1, premises.2, result⟩

/-- Indexed proposition. -/
def predicateDecl (fuel : Nat) : Parser PredicateDecl := do
  let first ← take .predicateKw ""
  let name ← takeIdentifier "after `predicate`"
  let indices ← parameters fuel
  nonempty (!indices.isEmpty) "a predicate needs at least one index"
  let _ ← take .leftBrace "after the predicate indices"
  let constructors ← itemsUntil .rightBrace (predicateConstructor fuel) fuel
  nonempty (!constructors.isEmpty) "a predicate needs at least one constructor"
  let close ← take .rightBrace "to close the predicate"
  let info ← identified (joined first.span close.span)
  pure ⟨info, name.name, indices, constructors⟩

def matchBinding : Parser MatchBinding := do
  let name ← takeIdentifier "as a pattern binding"
  pure ⟨name.span, name.name⟩

/-- Bindings after the opening parenthesis, and the span of the pattern. -/
def matchBindings (constructor : Name) (fuel : Nat) : Parser (SourceSpan × List MatchBinding) := do
  let bindings ← separatedItems .rightParen "expected `,` or `)` after a pattern binding"
    matchBinding fuel
  let close ← take .rightParen "to close the pattern"
  pure (joined constructor.span close.span, bindings)

/-- Bindings of a match pattern, if there are any. -/
def matchPattern (constructor : Name) (fuel : Nat) : Parser (SourceSpan × List MatchBinding) := do
  if ← accept .leftParen then matchBindings constructor fuel
  else pure (constructor.span, [])

def matchArm (fuel : Nat) : Parser MatchArm := do
  let constructor ← takeIdentifier "as a match constructor"
  let pattern ← matchPattern constructor fuel
  let _ ← take .fatArrow "after the match pattern"
  let value ← expr fuel
  pure ⟨joined pattern.1 value.span, constructor.name, pattern.2, value⟩

def matchArms (fuel : Nat) : Parser (List MatchArm) :=
  separatedItems .rightBrace "expected `,` or `\x7d` after a match arm" (matchArm fuel) fuel

/-- Function by a match. -/
def functionDecl (fuel : Nat) : Parser FunctionDecl := do
  let first ← take .functionKw ""
  let name ← takeIdentifier "after `function`"
  let inputs ← parameters fuel
  let _ ← take .colon "before the function result type"
  let resultType ← type fuel
  let _ ← take .leftBrace "before the function body"
  let _ ← take .matchKw "as the function body"
  let scrutinee ← expr fuel
  let _ ← take .leftBrace "after the matched expression"
  let arms ← matchArms fuel
  nonempty (!arms.isEmpty) "a function match needs at least one arm"
  let _ ← take .rightBrace "to close the match"
  let close ← take .rightBrace "to close the function"
  let info ← identified (joined first.span close.span)
  pure ⟨info, name.name, inputs, resultType, scrutinee, arms⟩

/-- The match of a synthesis, at its first token. -/
def synthMatch (fuel : Nat) : Parser (Option Expr × List MatchArm) := do
  let _ ← take .matchKw ""
  let scrutinee ← expr fuel
  let _ ← take .leftBrace "after the matched expression"
  let arms ← matchArms fuel
  nonempty (!arms.isEmpty) "a synthesis match needs at least one arm"
  let _ ← take .rightBrace "to close the synthesis match"
  pure (some scrutinee, arms)

/-- Match skeleton of a synthesis, if there is one. -/
def synthSkeleton (fuel : Nat) : Parser (Option Expr × List MatchArm) := do
  if (← currentKind) = .matchKw then synthMatch fuel
  else pure (none, [])

/-- Synthesis declaration. -/
def synthDecl (fuel : Nat) : Parser SynthDecl := do
  let first ← take .synthKw ""
  let name ← takeIdentifier "after `synth`"
  let inputs ← parameters fuel
  let _ ← take .colon "before the synthesized result type"
  let resultType ← type fuel
  let _ ← take .leftBrace "before the synthesis specification"
  let skeleton ← synthSkeleton fuel
  let _ ← take .ensuresKw "as the synthesis specification"
  let _ ← take .leftBrace "after `ensures`"
  let ensures ← conditions "after an ensured condition" fuel
  nonempty (!ensures.isEmpty) "a synthesis declaration needs at least one condition"
  let _ ← take .rightBrace "to close `ensures`"
  let close ← take .rightBrace "to close the synthesis declaration"
  let info ← identified (joined first.span close.span)
  pure ⟨info, name.name, inputs, resultType, skeleton.1, skeleton.2, ensures⟩

/-- A parameter or a predicate call. -/
structure InductionTarget where
  parameter : Option Identifier := none
  span : Option SourceSpan := none
  call : Option Expr := none

def inductionTarget (span : SourceSpan) : Expr → Parser InductionTarget
  | .name _ name => pure ⟨some name, some span, none⟩
  | .call info name elements => pure ⟨none, some span, some (.call info name elements)⟩
  | _ => fun _ => .error (.parse ⟨span,
      "`inducts` needs a parameter name or direct predicate call"⟩)

/-- An `inducts` clause, whose first token is current. -/
def inducts (fuel : Nat) : Parser InductionTarget := do
  let first ← take .inductsKw ""
  let _ ← take .leftParen "after `inducts`"
  let target ← expr fuel
  let close ← take .rightParen "after the induction parameter"
  let _ ← take .semicolon "after `inducts(...)`"
  inductionTarget (joined first.span close.span) target

/-- An `inducts` clause, if there is one. -/
def inductsClause (fuel : Nat) : Parser InductionTarget := do
  if (← currentKind) = .inductsKw then inducts fuel
  else pure {}

/-- Check or proof after its keyword. -/
def checkDeclAfter (first : Token) (reusable : Bool) (keyword : String) (fuel : Nat) :
    Parser CheckDecl := do
  let name ← takeIdentifier ("after `" ++ keyword ++ "`")
  let inputs ← parameters fuel
  let _ ← take .leftBrace ("before the " ++ keyword ++ " specification")
  let induction ← inductsClause fuel
  let assumes ← conditionBlock .assumesKw "as the first check clause" true fuel
  let ensures ← conditionBlock .ensuresKw "after `assumes`" false fuel
  let close ← take .rightBrace "to close the check declaration"
  let info ← identified (joined first.span close.span)
  pure ⟨info, reusable, name.name, inputs, induction.parameter, induction.span, induction.call,
    assumes, ensures⟩

/-- Reusable proof. -/
def proofDecl (fuel : Nat) : Parser CheckDecl := do
  let first ← take .proofKw ""
  checkDeclAfter first true "proof" fuel

/-- Check. -/
def checkDecl (reusable : Bool) (fuel : Nat) : Parser CheckDecl := do
  let first ← take .checkKw ""
  checkDeclAfter first reusable "check" fuel

def counterexampleEntry (fuel : Nat) : Parser CounterexampleEntry := do
  let name ← takeIdentifier "as an assignment name"
  let _ ← take .colon "after the assignment name"
  let declared ← type fuel
  let _ ← take .equal "after the assignment type"
  let value ← expr fuel
  let close ← take .semicolon "after the assignment"
  pure ⟨joined name.span close.span, name.name, declared, value⟩

/-- Counterexample. -/
def counterexampleDecl (fuel : Nat) : Parser CounterexampleDecl := do
  let first ← take .counterexampleKw ""
  let name ← takeIdentifier "after `counterexample`"
  let _ ← take .leftBrace "before the assignments"
  let entries ← itemsUntil .rightBrace (counterexampleEntry fuel) fuel
  let close ← take .rightBrace "to close the counterexample"
  let info ← identified (joined first.span close.span)
  pure ⟨info, name.name, entries⟩

def declaration (fuel : Nat) : Parser Declaration := do
  match ← currentKind with
  | .enumKw => .enum <$> enumDecl fuel
  | .letKw => .letBinding <$> letDecl fuel
  | .modelKw => .model <$> modelDecl fuel
  | .proofKw => .check <$> proofDecl fuel
  | .predicateKw => .predicate <$> predicateDecl fuel
  | .solveKw => .solve <$> solveDecl fuel
  | .viewKw => .view <$> viewDecl fuel
  | .functionKw => .function <$> functionDecl fuel
  | .synthKw => .synth <$> synthDecl fuel
  | .checkKw => .check <$> checkDecl false fuel
  | .counterexampleKw => .counterexample <$> counterexampleDecl fuel
  | _ => fail "expected a Fine declaration"

/-- Declarations up to the end of the file. -/
def document (fuel : Nat) : Parser Document := do
  let first ← get
  let declarations ← itemsUntil .eof (declaration fuel) fuel
  let last ← get
  pure ⟨⟨first.current.span.start, last.current.span.stop⟩, declarations⟩

/-- One expression and the end of the file. -/
def expressionDocument (fuel : Nat) : Parser Expr := do
  let result ← expr fuel
  let _ ← take .eof "after the expression"
  pure result

def start (source : SourceText) : Except ParseFailure ParserState :=
  match lex source with
  | ⟨first :: rest, refusal⟩ => .ok ⟨first, rest, refusal, 0⟩
  | ⟨[], some refusal⟩ => .error (.parse refusal)
  | ⟨[], none⟩ => .error .exhausted

/-- Run a parser over a source, with one round of fuel a token and one more. -/
def parseWith {α : Type} (parser : Nat → Parser α) (source : SourceText) :
    Except ParseFailure α := do
  let state ← start source
  let result ← (parser (state.rest.length + 2)).run state
  pure result.1

/-- Parse a document. -/
def parse (source : SourceText) : Except ParseFailure Document := parseWith document source

/-- Parse an expression. -/
def parseExpression (source : SourceText) : Except ParseFailure Expr :=
  parseWith expressionDocument source

end Fine.Syntax
