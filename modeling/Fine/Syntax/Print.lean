import Mathlib
import Fine.Syntax.Lexer

/-!
# Printed expressions and their tokens

`Lexes` follows the lexer over a text with what stands behind it in place. By it a printed
expression is read as its own tokens.
-/

namespace Fine.Syntax

open List

/-- A token without its place. -/
abbrev Lexeme := TokenKind × SourceText

def Token.lexeme (token : Token) : Lexeme := (token.kind, token.text)

/-- Spelling of an operator. -/
def operatorText : BinaryOp → SourceText
  | .equal => "==".toList
  | .greaterEqual => ">=".toList
  | .lessEqual => "<=".toList
  | .logicalAnd => "&&".toList
  | .logicalOr => "||".toList
  | .add => "+".toList
  | .subtract => "-".toList

mutual

/-- Text of an expression. -/
def printExpression : Expr → SourceText
  | .name _ name => name.text.toList
  | .boolean _ value => if value then "true".toList else "false".toList
  | .integer _ literal => literal.text
  | .call _ name elements => name.text.toList ++ '(' :: (printElements elements ++ [')'])
  | .tuple _ elements => '(' :: (printElements elements ++ [')'])
  | .binary _ op left right =>
    '(' :: (printExpression left ++ ' ' :: (operatorText op ++ ' ' :: (printExpression right ++
      [')'])))
  | .conditional _ condition yes no =>
    "if ".toList ++ (printExpression condition ++ (" \x7b ".toList ++ (printExpression yes ++
      (" \x7d else \x7b ".toList ++ (printExpression no ++ " \x7d".toList)))))
  | .hole _ name => '?' :: name.text.toList

/-- Texts of expressions with commas between them. -/
def printElements : List Expr → SourceText
  | [] => []
  | element :: elements => printExpression element ++ printLater elements

def printLater : List Expr → SourceText
  | [] => []
  | element :: elements => ", ".toList ++ (printExpression element ++ printLater elements)

end

/-- The name as a token. -/
def Identifier.lexeme (name : Identifier) : Lexeme := (.identifier, name.text.toList)

/-- The operator as a token. -/
def BinaryOp.lexeme : BinaryOp → Lexeme
  | .equal => (.equalEqual, "==".toList)
  | .greaterEqual => (.greaterEqual, ">=".toList)
  | .lessEqual => (.lessEqual, "<=".toList)
  | .logicalAnd => (.logicalAnd, "&&".toList)
  | .logicalOr => (.logicalOr, "||".toList)
  | .add => (.plus, "+".toList)
  | .subtract => (.minus, "-".toList)

/-- The literal as tokens. -/
def IntegerText.lexemes (literal : IntegerText) : List Lexeme :=
  if literal.negative then [(.minus, ['-']), (.integer, literal.digits)]
  else [(.integer, literal.digits)]

mutual

def Expr.lexemes : Expr → List Lexeme
  | .name _ name => [name.lexeme]
  | .boolean _ value => [if value then (.trueKw, "true".toList) else (.falseKw, "false".toList)]
  | .integer _ literal => literal.lexemes
  | .call _ name elements =>
    name.lexeme :: (.leftParen, ['(']) :: (elementLexemes elements ++ [(.rightParen, [')'])])
  | .tuple _ elements => (.leftParen, ['(']) :: (elementLexemes elements ++ [(.rightParen, [')'])])
  | .binary _ op left right =>
    (.leftParen, ['(']) :: (left.lexemes ++ op.lexeme :: (right.lexemes ++ [(.rightParen, [')'])]))
  | .conditional _ condition yes no =>
    (.ifKw, "if".toList) :: (condition.lexemes ++ (.leftBrace, ['\x7b']) :: (yes.lexemes ++
      (.rightBrace, ['\x7d']) :: (.elseKw, "else".toList) :: (.leftBrace, ['\x7b']) ::
        (no.lexemes ++ [(.rightBrace, ['\x7d'])])))
  | .hole _ name => [(.question, ['?']), name.lexeme]

/-- Tokens of expressions with commas. -/
def elementLexemes : List Expr → List Lexeme
  | [] => []
  | element :: elements => element.lexemes ++ laterLexemes elements

/-- Tokens of printed expressions, each after a comma. -/
def laterLexemes : List Expr → List Lexeme
  | [] => []
  | element :: elements => (.comma, [',']) :: (element.lexemes ++ laterLexemes elements)

end

/-- The text after the blanks and comments at its front. -/
def skipped (text : SourceText) : SourceText := (skipSpaceAndComments false {} text).rest

theorem skip_rest (comment : Bool) (position other : SourcePosition) (text : SourceText) :
    (skipSpaceAndComments comment position text).rest =
      (skipSpaceAndComments comment other text).rest := by
  induction text generalizing comment position other with
  | nil => rfl
  | cons character text ih =>
    unfold skipSpaceAndComments
    split
    · exact ih _ _ _
    · split
      · exact ih _ _ _
      · split
        · exact ih _ _ _
        · rfl

variable {character : Char} {text rest : SourceText} {kind : TokenKind}

theorem skipped_blank (blank : isBlank character = true) (text : SourceText) :
    skipped (character :: text) = skipped text := by
  unfold skipped
  rw [skipSpaceAndComments, if_neg (by decide), if_pos blank]
  exact skip_rest _ _ _ _

theorem skipped_solid (solid : isBlank character = false) (comment : character ≠ '/')
    (text : SourceText) : skipped (character :: text) = character :: text := by
  unfold skipped
  rw [skipSpaceAndComments, if_neg (by decide), if_neg (by simp [solid]), if_neg (by simp [comment])]

/-- The lexer reads the tokens and stands at the rest. -/
inductive Lexes : SourceText → List Lexeme → SourceText → Prop where
  | done (rest : SourceText) : Lexes rest [] rest
  | token {text rest : SourceText} {found : Found} {later : List Lexeme}
      (read : scan (skipped text) = some found) (more : found.kind ≠ .eof)
      (tail : Lexes found.rest later rest) :
      Lexes text ((found.kind, found.text) :: later) rest

namespace Lexes

theorem append {middle : SourceText} {first second : List Lexeme} (head : Lexes text first middle)
    (tail : Lexes middle second rest) : Lexes text (first ++ second) rest := by
  induction head with
  | done _ => exact tail
  | token read more _ ih => exact .token read more (ih tail)

theorem one {word : SourceText} (read : scan (skipped text) = some ⟨kind, word, rest⟩)
    (more : kind ≠ .eof) : Lexes text [(kind, word)] rest :=
  .token read more (.done rest)

theorem blank {lexemes : List Lexeme} (skip : isBlank character = true)
    (tail : Lexes text lexemes rest) (some : lexemes ≠ []) :
    Lexes (character :: text) lexemes rest := by
  cases tail with
  | done => exact absurd rfl some
  | token read more tail => exact .token (by rw [skipped_blank skip]; exact read) more tail

end Lexes

theorem isBlank_of_solid (solid : isNameStart character = true ∨ character.isDigit = true) :
    isBlank character = false ∧ character ≠ '/' := by
  constructor
  · by_contra blank
    simp only [isBlank, Bool.not_eq_false, Bool.or_eq_true, beq_iff_eq] at blank
    rcases blank with ((rfl | rfl) | rfl) | rfl <;> revert solid <;> decide
  · rintro rfl
    revert solid
    decide

theorem isNameStart_of_isDigit (digit : character.isDigit = true) :
    isNameStart character = false := by
  have bounds := Scan.isDigit_iff_code.mp digit
  have letter : character.isAlpha = false := by
    by_contra letter
    have codes := Scan.isAlpha_iff_code.mp (Bool.not_eq_false _ ▸ letter)
    omega
  have underscore : character ≠ '_' := by
    rintro rfl
    revert digit
    decide
  simp [isNameStart, letter, underscore]

theorem isWord_cons {word : SourceText} (valid : isWord word = true) : ∃ first later,
    word = first :: later ∧ isNameStart first = true ∧
      ∀ character ∈ later, isNameContinue character = true := by
  cases word with
  | nil => simp [isWord] at valid
  | cons first later =>
    simp only [isWord, Bool.and_eq_true, all_eq_true] at valid
    exact ⟨first, later, rfl, valid⟩

theorem isDigits_cons {digits : SourceText} (valid : isDigits digits = true) : ∃ first later,
    digits = first :: later ∧ first.isDigit = true ∧ ∀ digit ∈ later, digit.isDigit = true := by
  cases digits with
  | nil => simp [isDigits] at valid
  | cons first later =>
    simp only [isDigits, isEmpty_cons, Bool.not_false, Bool.true_and, all_cons,
      Bool.and_eq_true, all_eq_true] at valid
    exact ⟨first, later, rfl, valid⟩

theorem stops_isDigit (stops : Scan.Stops isNameContinue rest) : Scan.Stops Char.isDigit rest := by
  intro head found
  have outside := stops head found
  simp only [isNameContinue, Bool.or_eq_false_iff] at outside
  exact outside.2

namespace Lexes

theorem word (valid : isWord text = true ∧ keyword text = kind)
    (stops : Scan.Stops isNameContinue rest) : Lexes (text ++ rest) [(kind, text)] rest := by
  obtain ⟨isWord, rfl⟩ := valid
  obtain ⟨first, later, rfl, start, inside⟩ := isWord_cons isWord
  have solid := isBlank_of_solid (.inl start)
  apply one _ (keyword_ne (by decide) (by decide) _)
  rw [cons_append, skipped_solid solid.1 solid.2]
  simp only [scan, start, ↓reduceIte, Scan.takeWhile_word inside stops,
    Scan.dropWhile_word inside stops]

theorem identifier (name : Identifier) (stops : Scan.Stops isNameContinue rest) :
    Lexes (name.text.toList ++ rest) [name.lexeme] rest := by
  have valid := name.valid
  simp only [isIdentifier, Bool.and_eq_true, beq_iff_eq] at valid
  exact word valid stops

theorem digits (valid : isDigits text = true) (stops : Scan.Stops isNameContinue rest) :
    Lexes (text ++ rest) [(.integer, text)] rest := by
  obtain ⟨first, later, rfl, digit, inside⟩ := isDigits_cons valid
  have solid := isBlank_of_solid (.inr digit)
  apply one _ (by decide)
  rw [cons_append, skipped_solid solid.1 solid.2]
  simp only [scan, isNameStart_of_isDigit digit, digit, Bool.false_eq_true, ↓reduceIte,
    Scan.takeWhile_word inside (stops_isDigit stops),
    Scan.dropWhile_word inside (stops_isDigit stops)]

theorem single (plain : (isBlank character || isNameStart character || character.isDigit ||
      character == '/') = false) (known : singleSymbol character = some kind)
    (alone : ∀ second ∈ rest.head?, doubleSymbol character second = none) :
    Lexes (character :: rest) [(kind, [character])] rest := by
  simp only [Bool.or_eq_false_iff, beq_eq_false_iff_ne] at plain
  obtain ⟨⟨⟨solid, name⟩, digit⟩, comment⟩ := plain
  have read : symbol character rest = some ⟨kind, [character], rest⟩ := by
    cases rest with
    | nil => simp [symbol, known]
    | cons second rest =>
      have other : doubleSymbol character second = none := alone second (by simp)
      simp [symbol, known, other]
  apply one _ (symbol_kind read).2.2
  rw [skipped_solid solid comment]
  simpa [scan, name, digit] using read

theorem double {first second : Char}
    (plain : (isBlank first || isNameStart first || first.isDigit || first == '/') = false)
    (known : doubleSymbol first second = some kind) (rest : SourceText) :
    Lexes (first :: second :: rest) [(kind, [first, second])] rest := by
  simp only [Bool.or_eq_false_iff, beq_eq_false_iff_ne] at plain
  obtain ⟨⟨⟨solid, name⟩, digit⟩, comment⟩ := plain
  have read : symbol first (second :: rest) = some ⟨kind, [first, second], rest⟩ := by
    simp [symbol, known]
  apply one _ (symbol_kind read).2.2
  rw [skipped_solid solid comment]
  simpa [scan, name, digit] using read

theorem punctuation (mark : (character, kind) ∈ [('(', TokenKind.leftParen), (')', .rightParen),
      ('\x7b', .leftBrace), ('\x7d', .rightBrace), (':', .colon), (',', .comma),
      (';', .semicolon), ('+', .plus), ('-', .minus), ('?', .question)]) (rest : SourceText) :
    Lexes (character :: rest) [(kind, [character])] rest := by
  simp only [mem_cons, Prod.mk.injEq, not_mem_nil, or_false] at mark
  rcases mark with ⟨rfl, rfl⟩ | ⟨rfl, rfl⟩ | ⟨rfl, rfl⟩ | ⟨rfl, rfl⟩ | ⟨rfl, rfl⟩ | ⟨rfl, rfl⟩ |
    ⟨rfl, rfl⟩ | ⟨rfl, rfl⟩ | ⟨rfl, rfl⟩ | ⟨rfl, rfl⟩ <;>
    exact single (by decide) rfl (fun _ _ => rfl)

theorem operator (op : BinaryOp) (rest : SourceText) :
    Lexes (operatorText op ++ ' ' :: rest) [op.lexeme] (' ' :: rest) := by
  cases op with
  | add | subtract => exact punctuation (by decide) _
  | equal | greaterEqual | lessEqual | logicalAnd | logicalOr => exact double (by decide) rfl _

theorem integer (literal : IntegerText) (stops : Scan.Stops isNameContinue rest) :
    Lexes (literal.text ++ rest) literal.lexemes rest := by
  have read := digits literal.valid stops
  unfold IntegerText.text IntegerText.lexemes
  cases literal.negative with
  | false => exact read
  | true => exact (punctuation (by decide) _).append read

end Lexes

def startsExpression (kind : TokenKind) : Bool :=
  kind ∈ [.question, .identifier, .trueKw, .falseKw, .integer, .minus, .ifKw, .leftParen]

theorem lexemes_cons (expression : Expr) : ∃ first later,
    expression.lexemes = first :: later ∧ startsExpression first.1 = true := by
  cases expression with
  | name info name | tuple info elements | call info name elements | binary info op left right
  | conditional info condition yes no | hole info name => exact ⟨_, _, rfl, rfl⟩
  | boolean info value => cases value <;> exact ⟨_, _, rfl, rfl⟩
  | integer info literal =>
    simp only [Expr.lexemes, IntegerText.lexemes]
    cases literal.negative <;> exact ⟨_, _, rfl, rfl⟩

theorem lexemes_ne_nil (expression : Expr) : expression.lexemes ≠ [] := by
  obtain ⟨first, later, shape, _⟩ := lexemes_cons expression
  simp [shape]

/-- Read back as its tokens before text that does not go on with a name. -/
def PrintsTokens (expression : Expr) : Prop :=
  ∀ rest, Scan.Stops isNameContinue rest →
    Lexes (printExpression expression ++ rest) expression.lexemes rest

variable {elements : List Expr}

theorem printLater_lexes (each : ∀ element ∈ elements, PrintsTokens element)
    (stops : Scan.Stops isNameContinue rest) :
    Lexes (printLater elements ++ rest) (laterLexemes elements) rest := by
  induction elements with
  | nil => exact .done rest
  | cons element elements ih =>
    have tail := ih fun element member => each element (mem_cons_of_mem _ member)
    have separated : Scan.Stops isNameContinue (printLater elements ++ rest) := by
      cases elements with
      | nil => exact stops
      | cons next later => simp [printLater]; decide
    have head := each element mem_cons_self _ separated
    simp only [printLater, laterLexemes, append_assoc]
    exact (Lexes.punctuation (by decide) _).append
      (Lexes.blank (by decide) (head.append tail) (by simp [lexemes_ne_nil]))

theorem printElements_lexes (each : ∀ element ∈ elements, PrintsTokens element)
    (rest : SourceText) :
    Lexes (printElements elements ++ ')' :: rest)
      (elementLexemes elements ++ [(.rightParen, [')'])]) rest := by
  have close : Lexes (')' :: rest) [(.rightParen, [')'])] rest := Lexes.punctuation (by decide) _
  cases elements with
  | nil => exact close
  | cons element elements =>
    have stops : Scan.Stops isNameContinue (')' :: rest) := by simp; decide
    have separated : Scan.Stops isNameContinue (printLater elements ++ ')' :: rest) := by
      cases elements with
      | nil => exact stops
      | cons next later => simp [printLater]; decide
    have head := each element mem_cons_self _ separated
    have tail := printLater_lexes
      (fun element member => each element (mem_cons_of_mem _ member)) stops
    simp only [printElements, elementLexemes, append_assoc]
    exact head.append (tail.append close)

theorem opened_lexes {lexemes : List Lexeme} (tail : Lexes text lexemes rest)
    (some : lexemes ≠ []) :
    Lexes (' ' :: '\x7b' :: ' ' :: text) ((.leftBrace, ['\x7b']) :: lexemes) rest :=
  Lexes.blank (by decide)
    ((Lexes.punctuation (by decide) _).append (Lexes.blank (by decide) tail some)) (by simp)

/-- A printed expression is read back as its tokens. -/
theorem printExpression_lexes (expression : Expr) : PrintsTokens expression := by
  induction expression with
  | name info name => exact fun rest stops => Lexes.identifier name stops
  | boolean info value =>
    intro rest stops
    have yes : isWord "true".toList = true ∧ keyword "true".toList = .trueKw := by decide
    have no : isWord "false".toList = true ∧ keyword "false".toList = .falseKw := by decide
    cases value
    · exact Lexes.word no stops
    · exact Lexes.word yes stops
  | integer info literal => exact fun rest stops => Lexes.integer literal stops
  | tuple info elements ih =>
    intro rest stops
    have inner := printElements_lexes ih rest
    simp only [printExpression, Expr.lexemes, cons_append, append_assoc, nil_append]
    exact (Lexes.punctuation (by decide) _).append inner
  | call info name elements ih =>
    intro rest stops
    have inner := printElements_lexes ih rest
    have opened : Scan.Stops isNameContinue ('(' :: (printElements elements ++ ')' :: rest)) := by
      simp
      decide
    simp only [printExpression, Expr.lexemes, cons_append, append_assoc, nil_append]
    exact (Lexes.identifier name opened).append ((Lexes.punctuation (by decide) _).append inner)
  | binary info op left right leftIh rightIh =>
    intro rest stops
    have close : Lexes (')' :: rest) [(.rightParen, [')'])] rest := Lexes.punctuation (by decide) _
    have operand := (rightIh (')' :: rest) (by simp; decide)).append close
    have operation := (Lexes.operator op (printExpression right ++ ')' :: rest)).append
      (Lexes.blank (by decide) operand (by simp [lexemes_ne_nil]))
    have inner := (leftIh (' ' :: (operatorText op ++ ' ' :: (printExpression right ++ ')' :: rest)))
      (by simp; decide)).append (Lexes.blank (by decide) operation (by simp))
    simp only [printExpression, Expr.lexemes, cons_append, append_assoc, nil_append]
    exact (Lexes.punctuation (by decide) _).append inner
  | conditional info condition yes no conditionIh yesIh noIh =>
    intro rest stops
    have closed : ∀ {text later}, Lexes text later rest →
        Lexes (' ' :: '\x7d' :: text) ((.rightBrace, ['\x7d']) :: later) rest := fun tail =>
      Lexes.blank (by decide) ((Lexes.punctuation (by decide) _).append tail) (by simp)
    have inBranch := noIh (' ' :: '\x7d' :: rest) (by simp; decide)
    have second := opened_lexes (inBranch.append (closed (.done rest))) (by simp)
    have word : isWord "else".toList = true ∧ keyword "else".toList = .elseKw := by decide
    have alternative := (Lexes.word word (by simp; decide)).append second
    have spaced : Lexes (' ' :: _) _ rest := Lexes.blank (by decide) alternative (by simp)
    have branch := (yesIh _ (by simp; decide)).append (closed spaced)
    have first := opened_lexes branch (by simp)
    have test := (conditionIh _ (by simp; decide)).append first
    have keyword : isWord "if".toList = true ∧ keyword "if".toList = .ifKw := by decide
    have begun : Lexes (' ' :: _) _ rest := Lexes.blank (by decide) test (by simp)
    have all := (Lexes.word keyword (by simp; decide)).append begun
    simpa [printExpression, Expr.lexemes] using all
  | hole info name =>
    exact fun rest stops => (Lexes.punctuation (by decide) _).append (Lexes.identifier name stops)

end Fine.Syntax
