import Fine.Syntax.Tree

/-!
# Lexer

A token that claims to be an identifier or an integer carries the proof. The model keeps the tokens
in a list, which the end of the file or the first refusal ends.
-/

namespace Fine.Syntax

/-- Source text, one character a byte. -/
abbrev SourceText := List Char

/-- A refused source: where and why. -/
structure ParseError where
  span : SourceSpan
  message : String
deriving DecidableEq

/-- The place after one more character. -/
def SourcePosition.advance (position : SourcePosition) (character : Char) : SourcePosition :=
  if character = '\n' then
    { offset := position.offset + 1, line := position.line + 1, column := 1 }
  else
    { offset := position.offset + 1, line := position.line, column := position.column + 1 }

def SourcePosition.after (position : SourcePosition) (text : SourceText) : SourcePosition :=
  text.foldl SourcePosition.advance position

@[simp] theorem SourcePosition.advance_offset (position : SourcePosition) (character : Char) :
    (position.advance character).offset = position.offset + 1 := by
  unfold advance
  split <;> rfl

@[simp] theorem SourcePosition.after_offset (position : SourcePosition) (text : SourceText) :
    (position.after text).offset = position.offset + text.length := by
  unfold after
  induction text generalizing position with
  | nil => rfl
  | cons character text ih =>
    rw [List.foldl_cons, ih, advance_offset, List.length_cons]
    omega

/-- Token of a source. -/
structure Token where
  kind : TokenKind
  span : SourceSpan
  text : SourceText
  /-- The text of an identifier token is an identifier. -/
  identifier : kind = .identifier → isIdentifier text = true
  /-- The text of an integer token is a run of digits. -/
  integer : kind = .integer → isDigits text = true

/-- How a token kind is named in a message. -/
def spelling : TokenKind → String
  | .eof => "end of file"
  | .identifier => "an identifier"
  | .integer => "an integer"
  | .enumKw => "`enum`"
  | .letKw => "`let`"
  | .modelKw => "`model`"
  | .proofKw => "`proof`"
  | .predicateKw => "`predicate`"
  | .solveKw => "`solve`"
  | .viewKw => "`view`"
  | .constructorKw => "`constructor`"
  | .arbitraryKw => "`arbitrary`"
  | .overKw => "`over`"
  | .requiresKw => "`requires`"
  | .witnessKw => "`witness`"
  | .functionKw => "`function`"
  | .synthKw => "`synth`"
  | .checkKw => "`check`"
  | .counterexampleKw => "`counterexample`"
  | .matchKw => "`match`"
  | .inductsKw => "`inducts`"
  | .assumesKw => "`assumes`"
  | .ensuresKw => "`ensures`"
  | .ifKw => "`if`"
  | .elseKw => "`else`"
  | .takesKw => "`takes`"
  | .givesKw => "`gives`"
  | .tableKw => "`table`"
  | .trueKw => "`true`"
  | .falseKw => "`false`"
  | .leftBrace => "`\x7b`"
  | .rightBrace => "`\x7d`"
  | .leftParen => "`(`"
  | .rightParen => "`)`"
  | .colon => "`:`"
  | .comma => "`,`"
  | .semicolon => "`;`"
  | .equal => "`=`"
  | .fatArrow => "`=>`"
  | .equalEqual => "`==`"
  | .greaterEqual => "`>=`"
  | .lessEqual => "`<=`"
  | .logicalAnd => "`&&`"
  | .logicalOr => "`||`"
  | .plus => "`+`"
  | .minus => "`-`"
  | .question => "`?`"

/-- The place of the lexer and the text after it. -/
structure Scanner where
  position : SourcePosition
  rest : SourceText

def isBlank (character : Char) : Bool :=
  character == ' ' || character == '\t' || character == '\r' || character == '\n'

/-- Skip blanks, and comments up to the end of their line. -/
def skipSpaceAndComments (comment : Bool) (position : SourcePosition) : SourceText → Scanner
  | [] => ⟨position, []⟩
  | character :: rest =>
    if comment then
      skipSpaceAndComments (character != '\n') (position.advance character) rest
    else if isBlank character then
      skipSpaceAndComments false (position.advance character) rest
    else if character = '/' ∧ rest.head? = some '/' then
      skipSpaceAndComments true (position.advance character) rest
    else
      ⟨position, character :: rest⟩

/-- Tokens of two characters. -/
def doubleSymbol : Char → Char → Option TokenKind
  | '=', '=' => some .equalEqual
  | '=', '>' => some .fatArrow
  | '>', '=' => some .greaterEqual
  | '<', '=' => some .lessEqual
  | '&', '&' => some .logicalAnd
  | '|', '|' => some .logicalOr
  | _, _ => none

/-- Tokens of one character. -/
def singleSymbol : Char → Option TokenKind
  | '\x7b' => some .leftBrace
  | '\x7d' => some .rightBrace
  | '(' => some .leftParen
  | ')' => some .rightParen
  | ':' => some .colon
  | ',' => some .comma
  | ';' => some .semicolon
  | '=' => some .equal
  | '+' => some .plus
  | '-' => some .minus
  | '?' => some .question
  | _ => none

/-- A token at the front of a text: kind, characters and the text after it. -/
structure Found where
  kind : TokenKind
  text : SourceText
  rest : SourceText
deriving DecidableEq

def symbol (character : Char) : SourceText → Option Found
  | [] => (singleSymbol character).map fun kind => ⟨kind, [character], []⟩
  | second :: rest =>
    match doubleSymbol character second with
    | some kind => some ⟨kind, [character, second], rest⟩
    | none => (singleSymbol character).map fun kind => ⟨kind, [character], second :: rest⟩

/-- The token at the front of a text without blanks. -/
def scan : SourceText → Option Found
  | [] => some ⟨.eof, [], []⟩
  | character :: rest =>
    if isNameStart character then
      let word := character :: rest.takeWhile isNameContinue
      some ⟨keyword word, word, rest.dropWhile isNameContinue⟩
    else if character.isDigit then
      some ⟨.integer, character :: rest.takeWhile Char.isDigit, rest.dropWhile Char.isDigit⟩
    else symbol character rest

variable {found : Found} {text : SourceText}

theorem symbol_kind {character : Char} {rest : SourceText}
    (read : symbol character rest = some found) :
    found.kind ≠ .identifier ∧ found.kind ≠ .integer ∧ found.kind ≠ .eof := by
  have double : ∀ second kind, doubleSymbol character second = some kind →
      kind ≠ .identifier ∧ kind ≠ .integer ∧ kind ≠ .eof := by
    intro second kind read
    unfold doubleSymbol at read
    split at read <;> cases read <;> decide
  have single : ∀ kind, singleSymbol character = some kind →
      kind ≠ .identifier ∧ kind ≠ .integer ∧ kind ≠ .eof := by
    intro kind read
    unfold singleSymbol at read
    split at read <;> cases read <;> decide
  cases rest with
  | nil =>
    obtain ⟨kind, single_read, rfl⟩ := Option.map_eq_some_iff.mp read
    exact single kind single_read
  | cons second rest =>
    simp only [symbol] at read
    split at read
    · rename_i kind double_read
      cases read
      exact double second kind double_read
    · obtain ⟨kind, single_read, rfl⟩ := Option.map_eq_some_iff.mp read
      exact single kind single_read

theorem scan_identifier (read : scan text = some found) (kind : found.kind = .identifier) :
    isIdentifier found.text = true := by
  unfold scan at read
  split at read
  · cases read
    cases kind
  · split at read
    · rename_i character rest start
      cases read
      have inside : (rest.takeWhile isNameContinue).all isNameContinue = true := List.all_takeWhile
      simp only at kind
      simp [isIdentifier, isWord, start, inside, kind]
    · split at read
      · cases read
        cases kind
      · exact absurd kind (symbol_kind read).1

theorem scan_integer (read : scan text = some found) (kind : found.kind = .integer) :
    isDigits found.text = true := by
  unfold scan at read
  split at read
  · cases read
    cases kind
  · split at read
    · cases read
      simp only at kind
      exact absurd kind (keyword_ne_integer _)
    · split at read
      · rename_i character rest _ digit
        cases read
        have inside : (rest.takeWhile Char.isDigit).all Char.isDigit = true := List.all_takeWhile
        simp [isDigits, digit, inside]
      · exact absurd kind (symbol_kind read).2.1

/-- The next token, or a refused character. -/
def next (scanner : Scanner) : Except ParseError (Token × Scanner) :=
  let first := skipSpaceAndComments false scanner.position scanner.rest
  match read : scan first.rest with
  | some found =>
    let stop := first.position.after found.text
    .ok (⟨found.kind, ⟨first.position, stop⟩, found.text, scan_identifier read, scan_integer read⟩,
      ⟨stop, found.rest⟩)
  | none =>
    .error ⟨⟨first.position, first.position.after (first.rest.take 1)⟩,
      "unexpected character `" ++ String.ofList (first.rest.take 1) ++ "`"⟩

/-- Tokens in order, and the refusal that stopped the lexer if there is one. -/
structure Tokens where
  tokens : List Token
  refusal : Option ParseError

/-- Tokens from a place on, as many as characters and one at most. -/
def lexFrom : Nat → Scanner → Tokens
  | 0, _ => ⟨[], none⟩
  | fuel + 1, scanner =>
    match next scanner with
    | .error refusal => ⟨[], some refusal⟩
    | .ok (token, scanner) =>
      if token.kind = .eof then ⟨[token], none⟩
      else
        let later := lexFrom fuel scanner
        ⟨token :: later.tokens, later.refusal⟩

/-- Tokens of a source. -/
def lex (source : SourceText) : Tokens := lexFrom (source.length + 1) ⟨{}, source⟩

end Fine.Syntax
