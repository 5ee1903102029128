import Fine.Library.Fallible
import Fine.Syntax.Lexer

/-!
# Parser

Recursive descent, in the order in which the source takes tokens, allots numbers and refuses. Each
round takes a token, so their number is fuel enough.
-/

namespace Fine.Syntax

/-- Why a parse gives no tree. -/
inductive ParseFailure where
  | parse (refusal : ParseError)
  | exhausted

/-- The current token, those after it, what stops the lexer, and the next number. -/
structure ParserState where
  current : Token
  rest : List Token
  refusal : Option ParseError
  nextNodeId : Nat

/-- Parsers move the state or fail. -/
abbrev Parser (α : Type) := StateT ParserState (Except ParseFailure) α

/-- A name and where it stands. -/
structure Name where
  span : SourceSpan
  name : Identifier

/-- An integer literal without its sign. -/
structure Digits where
  span : SourceSpan
  digits : SourceText
  valid : isDigits digits = true

variable {α : Type}

def currentKind : Parser TokenKind := do
  return (← get).current.kind

/-- The next token; the end of the file stays. -/
def advance : Parser Unit := fun state =>
  match state.rest, state.refusal with
  | token :: rest, _ => .ok ((), { state with current := token, rest := rest })
  | [], some refusal => .error (.parse refusal)
  | [], none => .ok ((), state)

/-- Refuse the current token. -/
def fail (message : String) : Parser α := fun state =>
  let found := if state.current.kind = .eof then "; found end of file"
    else "; found `" ++ String.ofList state.current.text ++ "`"
  .error (.parse ⟨state.current.span, message ++ found⟩)

/-- Refuse the current token because another kind is due. -/
def expected (kind : TokenKind) (context : String) : Parser α :=
  fail ("expected " ++ spelling kind ++ if context = "" then "" else " " ++ context)

/-- Take a token of one kind. -/
def take (kind : TokenKind) (context : String) : Parser Token := do
  let state ← get
  if state.current.kind = kind then do
    advance
    pure state.current
  else expected kind context

def takeIdentifier (context : String) : Parser Name := do
  let state ← get
  if same : state.current.kind = .identifier then do
    advance
    pure ⟨state.current.span, ⟨String.ofList state.current.text, by
      simpa using state.current.identifier same⟩⟩
  else expected .identifier context

def takeInteger (context : String) : Parser Digits := do
  let state ← get
  if same : state.current.kind = .integer then do
    advance
    pure ⟨state.current.span, state.current.text, state.current.integer same⟩
  else expected .integer context

/-- Take a token of one kind if it is there. -/
def accept (kind : TokenKind) : Parser Bool := do
  if (← currentKind) = kind then do
    advance
    pure true
  else pure false

/-- Place of a finished node, with the next node number. -/
def identified (span : SourceSpan) : Parser NodeInfo := fun state =>
  .ok (⟨span, state.nextNodeId⟩, { state with nextNodeId := state.nextNodeId + 1 })

def exhausted : Parser α := fun _ => .error .exhausted

def separator (close : TokenKind) (message : String) : Parser Unit := do
  if ← accept .comma then pure ()
  else if (← currentKind) = close then pure ()
  else fail message

/-- Items with commas up to a closing token. -/
def separatedItems (close : TokenKind) (message : String) (item : Parser α) :
    Nat → Parser (List α)
  | 0 => exhausted
  | fuel + 1 => do
    if (← currentKind) = close then pure []
    else do
      let head ← item
      separator close message
      let tail ← separatedItems close message item fuel
      pure (head :: tail)

/-- Items up to a closing token. -/
def itemsUntil (close : TokenKind) (item : Parser α) : Nat → Parser (List α)
  | 0 => exhausted
  | fuel + 1 => do
    if (← currentKind) = close then pure []
    else do
      let head ← item
      let tail ← itemsUntil close item fuel
      pure (head :: tail)

/-- Later elements, the last comma perhaps trailing. -/
def tupleTail (item : Parser α) : Nat → Parser (List α)
  | 0 => exhausted
  | fuel + 1 => do
    if ← accept .comma then do
      if (← currentKind) = .rightParen then pure []
      else do
        let head ← item
        let tail ← tupleTail item fuel
        pure (head :: tail)
    else pure []

/-- Rest of a tuple type after its opening token. -/
def tupleType (type : Parser TypeSyntax) (open_ : Token) (fuel : Nat) : Parser TypeSyntax := do
  let first ← type
  let _ ← take .comma "between tuple type elements"
  let second ← type
  let later ← tupleTail type fuel
  let close ← take .rightParen "to close the tuple type"
  pure (.tuple (joined open_.span close.span) (first :: second :: later))

def tableType (type : Parser TypeSyntax) (name : Name) : Parser TypeSyntax := do
  let _ ← take .leftParen ""
  let key ← type
  let _ ← take .comma "between the table key and value types"
  let value ← type
  let close ← take .rightParen "to close the table type"
  pure (.table (joined name.span close.span) key value)

/-- A named type, or a table type after `Table`. -/
def namedType (type : Parser TypeSyntax) : Parser TypeSyntax := do
  let name ← takeIdentifier "as a type"
  let kind ← currentKind
  if name.name.text = "Table" ∧ kind = .leftParen then tableType type name
  else pure (.named name.span name.name)

/-- Types. -/
def type : Nat → Parser TypeSyntax
  | 0 => exhausted
  | fuel + 1 => do
    if (← currentKind) = .leftParen then do
      let first ← take .leftParen ""
      tupleType (type fuel) first fuel
    else namedType (type fuel)

/-- A finished binary node. -/
def binary (op : BinaryOp) (left right : Expr) : Parser Expr := do
  let info ← identified (joined left.span right.span)
  pure (.binary info op left right)

/-- Operators of one level, to the left. -/
def binaryLoop (operators : TokenKind → Option BinaryOp) (operand : Parser Expr) :
    Nat → Expr → Parser Expr
  | 0, _ => exhausted
  | fuel + 1, left => do
    match operators (← currentKind) with
    | none => pure left
    | some op => do
      advance
      let right ← operand
      let node ← binary op left right
      binaryLoop operators operand fuel node

def binaryLevel (operators : TokenKind → Option BinaryOp) (operand : Parser Expr) (fuel : Nat) :
    Parser Expr := do
  let left ← operand
  binaryLoop operators operand fuel left

/-- Sums and differences. -/
def additiveOperators : TokenKind → Option BinaryOp
  | .plus => some .add
  | .minus => some .subtract
  | _ => none

/-- Order comparisons. -/
def relationalOperators : TokenKind → Option BinaryOp
  | .greaterEqual => some .greaterEqual
  | .lessEqual => some .lessEqual
  | _ => none

def equalityOperators : TokenKind → Option BinaryOp
  | .equalEqual => some .equal
  | _ => none

def logicalAndOperators : TokenKind → Option BinaryOp
  | .logicalAnd => some .logicalAnd
  | _ => none

def logicalOrOperators : TokenKind → Option BinaryOp
  | .logicalOr => some .logicalOr
  | _ => none

/-- Sums and differences of primaries. -/
def additive (primary : Parser Expr) (fuel : Nat) : Parser Expr :=
  binaryLevel additiveOperators primary fuel

/-- Comparisons of sums. -/
def relational (primary : Parser Expr) (fuel : Nat) : Parser Expr :=
  binaryLevel relationalOperators (additive primary fuel) fuel

/-- Equations of comparisons. -/
def equality (primary : Parser Expr) (fuel : Nat) : Parser Expr :=
  binaryLevel equalityOperators (relational primary fuel) fuel

/-- Conjunctions of equations. -/
def logicalAnd (primary : Parser Expr) (fuel : Nat) : Parser Expr :=
  binaryLevel logicalAndOperators (equality primary fuel) fuel

/-- Disjunctions of conjunctions. -/
def logicalOr (primary : Parser Expr) (fuel : Nat) : Parser Expr :=
  binaryLevel logicalOrOperators (logicalAnd primary fuel) fuel

def hole : Parser Expr := do
  let first ← take .question ""
  let name ← takeIdentifier "as the hole name"
  let info ← identified (joined first.span name.span)
  pure (.hole info name.name)

/-- Arguments of a call after the opening parenthesis. -/
def callArguments (expr : Parser Expr) (name : Name) (fuel : Nat) : Parser Expr := do
  let arguments ← separatedItems .rightParen "expected `,` or `)` after a call argument" expr fuel
  let close ← take .rightParen "to close the constructor call"
  let info ← identified (joined name.span close.span)
  pure (.call info name.name arguments)

def nameNode (name : Name) : Parser Expr := do
  let info ← identified name.span
  pure (.name info name.name)

def nameOrCall (expr : Parser Expr) (fuel : Nat) : Parser Expr := do
  let name ← takeIdentifier ""
  if ← accept .leftParen then callArguments expr name fuel
  else nameNode name

def booleanLiteral (value : Bool) : Parser Expr := do
  let state ← get
  advance
  let info ← identified state.current.span
  pure (.boolean info value)

def integerLiteral : Parser Expr := do
  let value ← takeInteger ""
  let info ← identified value.span
  pure (.integer info ⟨false, value.digits, value.valid⟩)

def negativeLiteral : Parser Expr := do
  let first ← take .minus ""
  let value ← takeInteger "after unary `-`"
  let info ← identified (joined first.span value.span)
  pure (.integer info ⟨true, value.digits, value.valid⟩)

def conditional (expr : Parser Expr) : Parser Expr := do
  let first ← take .ifKw ""
  let condition ← expr
  let _ ← take .leftBrace "before the true branch"
  let yes ← expr
  let _ ← take .rightBrace "after the true branch"
  let _ ← take .elseKw "after the true branch"
  let _ ← take .leftBrace "before the false branch"
  let no ← expr
  let close ← take .rightBrace "after the false branch"
  let info ← identified (joined first.span close.span)
  pure (.conditional info condition yes no)

def tupleNode (expr : Parser Expr) (open_ : Token) (first : Expr) (fuel : Nat) : Parser Expr := do
  let second ← expr
  let later ← tupleTail expr fuel
  let close ← take .rightParen "to close the tuple"
  let info ← identified (joined open_.span close.span)
  pure (.tuple info (first :: second :: later))

def grouped (expression : Expr) : Parser Expr := do
  let _ ← take .rightParen "to close the grouped expression"
  pure expression

def groupOrTuple (expr : Parser Expr) (fuel : Nat) : Parser Expr := do
  let open_ ← take .leftParen ""
  let first ← expr
  if ← accept .comma then tupleNode expr open_ first fuel
  else grouped first

/-- Primary expressions by the kind of the current token. -/
def primaryAt (expr : Parser Expr) (fuel : Nat) : TokenKind → Parser Expr
  | .question => hole
  | .identifier => nameOrCall expr fuel
  | .trueKw => booleanLiteral true
  | .falseKw => booleanLiteral false
  | .integer => integerLiteral
  | .minus => negativeLiteral
  | .ifKw => conditional expr
  | .leftParen => groupOrTuple expr fuel
  | _ => fail "expected a name, call, integer, Boolean, tuple, conditional, or hole expression"

/-- Primary expressions. -/
def primary (expr : Parser Expr) (fuel : Nat) : Parser Expr := do
  primaryAt expr fuel (← currentKind)

/-- Expressions. -/
def expr : Nat → Parser Expr
  | 0 => exhausted
  | fuel + 1 => logicalOr (primary (expr fuel) fuel) fuel

end Fine.Syntax
