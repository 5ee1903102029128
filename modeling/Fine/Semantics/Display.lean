import Fine.Semantics.Values
import Fine.Syntax.Reading

/-!
# Texts of types

The text of a type is read back by the parser as the type.
-/

namespace Fine.Semantics

open Fine.Syntax
open List hiding lex

/-- Name of the Boolean type. -/
def boolName : Identifier := ⟨"Bool", by decide⟩

/-- Name of the integer type. -/
def intName : Identifier := ⟨"Int", by decide⟩

def tableName : Identifier := ⟨"Table", by decide⟩

namespace FineType

def display : FineType → String
  | .bool => "Bool"
  | .int => "Int"
  | .named name => name.text
  | .tuple first second => "(" ++ first.display ++ ", " ++ second.display ++ ")"
  | .table key value => "Table(" ++ key.display ++ ", " ++ value.display ++ ")"

def written : FineType → TypeSyntax
  | .bool => .named {} boolName
  | .int => .named {} intName
  | .named name => .named {} name
  | .tuple first second => .tuple {} [first.written, second.written]
  | .table key value => .table {} key.written value.written

/-- The type that is written; only pairs are tuples. -/
def ofSyntax : TypeSyntax → FineType
  | .named _ name => if name = boolName then .bool else if name = intName then .int else .named name
  | .tuple _ [first, second] => .tuple (ofSyntax first) (ofSyntax second)
  | .tuple _ _ => .bool
  | .table _ key value => .table (ofSyntax key) (ofSyntax value)

def lexemes : FineType → List Lexeme
  | .bool => [boolName.lexeme]
  | .int => [intName.lexeme]
  | .named name => [name.lexeme]
  | .tuple first second => (.leftParen, ['(']) :: (first.lexemes ++
      (.comma, [',']) :: (second.lexemes ++ [(.rightParen, [')'])]))
  | .table key value => tableName.lexeme :: (.leftParen, ['(']) :: (key.lexemes ++
      (.comma, [',']) :: (value.lexemes ++ [(.rightParen, [')'])]))

/-- No declared name in it is that of a built-in type. -/
def proper : FineType → Bool
  | .bool | .int => true
  | .named name => name != boolName && name != intName
  | .tuple first second => first.proper && second.proper
  | .table key value => key.proper && value.proper

theorem pair_lexes {first second : FineType}
    (one : ∀ rest, Scan.Stops isNameContinue rest →
      Lexes (first.display.toList ++ rest) first.lexemes rest)
    (two : ∀ rest, Scan.Stops isNameContinue rest →
      Lexes (second.display.toList ++ rest) second.lexemes rest) (rest : SourceText) :
    Lexes ('(' :: (first.display.toList ++ ',' :: ' ' :: (second.display.toList ++ ')' :: rest)))
      ((.leftParen, ['(']) :: (first.lexemes ++ (.comma, [',']) ::
        (second.lexemes ++ [(.rightParen, [')'])]))) rest := by
  have close : Lexes (')' :: rest) [(.rightParen, [')'])] rest := Lexes.punctuation (by decide) _
  have tail := (two (')' :: rest) (Scan.stops_cons.mpr (by decide))).append close
  have comma := (Lexes.punctuation (by decide : (',', TokenKind.comma) ∈ _) _).append
    (Lexes.blank (by decide : isBlank ' ' = true) tail (by simp))
  exact (Lexes.punctuation (by decide : ('(', TokenKind.leftParen) ∈ _) _).append
    ((one _ (Scan.stops_cons.mpr (by decide))).append comma)

theorem display_lexes (type : FineType) : ∀ rest, Scan.Stops isNameContinue rest →
    Lexes (type.display.toList ++ rest) type.lexemes rest := by
  induction type with
  | bool => exact fun rest stops => Lexes.identifier boolName stops
  | int => exact fun rest stops => Lexes.identifier intName stops
  | named name => exact fun rest stops => Lexes.identifier name stops
  | tuple first second one two =>
    intro rest _
    have read := pair_lexes one two rest
    simpa [display, lexemes] using read
  | table key value one two =>
    intro rest _
    have stops : Scan.Stops isNameContinue
        ('(' :: (key.display.toList ++ ',' :: ' ' :: (value.display.toList ++ ')' :: rest))) :=
      Scan.stops_cons.mpr (by decide)
    have read := (Lexes.identifier tableName stops).append (pair_lexes one two rest)
    simpa [display, lexemes, tableName] using read

/-- The tokens of a type are read back, before anything but a parenthesis. -/
theorem written_reads (type : FineType) : ∀ fuel rest kind, headKind rest = some kind →
    kind ≠ .leftParen → type.lexemes.length ≤ fuel →
      Reads (Syntax.type fuel) type.lexemes rest fun found => found.strip = type.written := by
  -- a declared name, `Table` included, is read alone before anything but a parenthesis
  have alone : ∀ (name : Identifier) fuel rest kind, headKind rest = some kind →
      kind ≠ .leftParen → 1 ≤ fuel → Reads (Syntax.type fuel) [name.lexeme] rest
        fun found => found.strip = .named {} name := by
    intro name fuel rest kind head closed enough
    obtain ⟨fuel, rfl⟩ : ∃ n, fuel = n + 1 := ⟨fuel - 1, by omega⟩
    refine Reads.peek (show _ = some TokenKind.identifier from rfl) ?_
    rw [if_neg (by decide)]
    apply (reads_takeIdentifier name (ne_nil_of_headKind head)).last
    intro found same
    refine Reads.peek (show _ = some kind from head) ?_
    rw [if_neg (by simp [closed])]
    exact reads_pure (by rw [same]; rfl)
  induction type with
  | bool => exact alone boolName
  | int => exact alone intName
  | named name => exact alone name
  | tuple first second one two =>
    intro fuel rest kind head closed enough
    have more := ne_nil_of_headKind head
    simp only [lexemes, length_cons, length_append, length_nil] at enough
    obtain ⟨fuel, rfl⟩ : ∃ n, fuel = n + 1 := ⟨fuel - 1, by omega⟩
    refine Reads.peek (show _ = some TokenKind.leftParen from rfl) ?_
    rw [if_pos rfl]
    apply (reads_take (by simp)).cons
    intro open_ _
    apply (one fuel _ .comma rfl (by decide) (by omega)).bind
    intro firstValue firstSame
    apply (reads_take (by simp)).cons
    intro _ _
    apply (two fuel _ .rightParen rfl (by decide) (by omega)).bind
    intro secondValue secondSame
    have none : Reads (tupleTail (Syntax.type fuel) fuel) []
        ([(TokenKind.rightParen, [')'])] ++ rest) fun found => found = [] := by
      obtain ⟨fuel, rfl⟩ : ∃ n, fuel = n + 1 := ⟨fuel - 1, by omega⟩
      apply (reads_accept_other ⟨.rightParen, rfl, by decide⟩).last
      rintro _ rfl
      rw [if_neg (by decide)]
      exact reads_pure rfl
    apply none.skip
    rintro _ rfl
    apply (reads_take more).last
    intro close _
    refine reads_pure ?_
    simp [TypeSyntax.strip, TypeSyntax.stripAll, written, firstSame, secondSame]
  | table key value one two =>
    intro fuel rest kind head closed enough
    have more := ne_nil_of_headKind head
    simp only [lexemes, length_cons, length_append, length_nil] at enough
    obtain ⟨fuel, rfl⟩ : ∃ n, fuel = n + 1 := ⟨fuel - 1, by omega⟩
    refine Reads.peek (show _ = some TokenKind.identifier from rfl) ?_
    rw [if_neg (by decide)]
    apply (reads_takeIdentifier tableName (by simp)).cons
    intro name same
    refine Reads.peek (show _ = some TokenKind.leftParen from rfl) ?_
    rw [if_pos (by rw [same]; exact ⟨rfl, rfl⟩)]
    apply (reads_take (by simp)).cons
    intro open_ _
    apply (one fuel _ .comma rfl (by decide) (by omega)).bind
    intro keyValue keySame
    apply (reads_take (by simp)).cons
    intro _ _
    apply (two fuel _ .rightParen rfl (by decide) (by omega)).bind
    intro valueValue valueSame
    apply (reads_take more).last
    intro close _
    refine reads_pure ?_
    simp [TypeSyntax.strip, written, keySame, valueSame]

variable {left right : FineType}

/-- Types with one text have one written form. -/
theorem written_of_display (same : left.display = right.display) :
    left.written = right.written := by
  have read : ∀ type : FineType, (lex type.display.toList).lexemes = type.lexemes ++ [(.eof, [])] := by
    intro type
    have all := type.display_lexes [] (Scan.stops_nil _)
    rw [append_nil] at all
    exact (lex_of_lexes all rfl).1
  have shared := read left
  rw [same, read right] at shared
  have lexemes : left.lexemes = right.lexemes := (append_cancel_right shared).symm
  -- one parser state holds the tokens of both, so both are what the parser returns there
  obtain ⟨first, later, tokens⟩ : ∃ first later,
      (lex left.display.toList).tokens = first :: later := by
    cases tokens : (lex left.display.toList).tokens with
    | nil =>
      have := read left
      simp [Tokens.lexemes, tokens] at this
    | cons first later => exact ⟨first, later, rfl⟩
  have here : (ParserState.mk first later none 0).lexemes = left.lexemes ++ [(.eof, [])] := by
    rw [← read left, Tokens.lexemes, tokens]
    rfl
  obtain ⟨value, final, run, is, -⟩ := left.written_reads left.lexemes.length [(.eof, [])] .eof rfl
    (by decide) (Nat.le_refl _) _ here
  obtain ⟨value', final', run', is', -⟩ := right.written_reads left.lexemes.length [(.eof, [])]
    .eof rfl (by decide) (by rw [lexemes]) _ (by rw [here, lexemes])
  rw [run] at run'
  cases run'
  rw [← is, is']

theorem written_injective (first : left.proper = true) (second : right.proper = true)
    (same : left.written = right.written) : left = right := by
  induction left generalizing right with
  | bool | int =>
    cases right <;> simp_all [written, proper, boolName, intName]
  | named name =>
    cases right <;> simp_all [written, proper]
  | tuple one two oneIh twoIh =>
    cases right with
    | tuple one' two' =>
      simp only [written, TypeSyntax.tuple.injEq, true_and, List.cons.injEq, and_true] at same
      simp only [proper, Bool.and_eq_true] at first second
      rw [oneIh first.1 second.1 same.1, twoIh first.2 second.2 same.2]
    | bool | int | named | table => cases same
  | table key value keyIh valueIh =>
    cases right with
    | table key' value' =>
      simp only [written, TypeSyntax.table.injEq, true_and] at same
      simp only [proper, Bool.and_eq_true] at first second
      rw [keyIh first.1 second.1 same.1, valueIh first.2 second.2 same.2]
    | bool | int | named | tuple => cases same

theorem display_injective (first : left.proper = true) (second : right.proper = true)
    (same : left.display = right.display) : left = right :=
  written_injective first second (written_of_display same)

end FineType

end Fine.Semantics
