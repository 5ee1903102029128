import Fine.Syntax.Print
import Fine.Syntax.Declarations

/-!
# Reading printed text

`Reads` says that a parser takes exactly the given lexemes and returns a value with a property. An
expression read back as a primary is read back in every place.
-/

namespace Fine.Syntax

open Fine.Fallible List

variable {α β : Type}

theorem skip_split (comment : Bool) (position : SourcePosition) (text : SourceText) :
    ∃ blank, text = blank ++ (skipSpaceAndComments comment position text).rest ∧
      (skipSpaceAndComments comment position text).position = position.after blank := by
  induction text generalizing comment position with
  | nil => exact ⟨[], rfl, rfl⟩
  | cons character text ih =>
    have step : ∀ mode, ∃ blank, character :: text =
        blank ++ (skipSpaceAndComments mode (position.advance character) text).rest ∧
        (skipSpaceAndComments mode (position.advance character) text).position =
          position.after blank := by
      intro mode
      obtain ⟨blank, split, place⟩ := ih mode (position.advance character)
      refine ⟨character :: blank, ?_, ?_⟩
      · rw [cons_append, ← split]
      · rw [place]
        rfl
    unfold skipSpaceAndComments
    split
    · exact step _
    · split
      · exact step _
      · split
        · exact step _
        · exact ⟨[], rfl, rfl⟩

variable {text : SourceText} {rest : List Lexeme} {good middle : α → Prop} {second : α → Parser β}
  {kind close : TokenKind}

variable {found : Found} {first item : Parser α} {later : List Lexeme} {lexeme : Lexeme}
  {state : ParserState} {context message : String} {span : SourceSpan} {operand : Parser Expr}
  {fuel rounds : Nat}

/-- A token is the front of its text, and only the end of the file is empty. -/
theorem scan_split (read : scan text = some found) :
    text = found.text ++ found.rest ∧ (found.kind ≠ .eof → found.text ≠ []) := by
  unfold scan at read
  split at read
  · cases read
    exact ⟨rfl, fun more => absurd rfl more⟩
  · split at read
    · cases read
      simp [takeWhile_append_dropWhile]
    · split at read
      · cases read
        simp [takeWhile_append_dropWhile]
      · rename_i character rest _ _
        cases rest with
        | nil =>
          obtain ⟨kind, _, rfl⟩ := Option.map_eq_some_iff.mp read
          simp
        | cons second rest =>
          simp only [symbol] at read
          split at read
          · cases read
            simp
          · obtain ⟨kind, _, rfl⟩ := Option.map_eq_some_iff.mp read
            simp

theorem next_of_scan (position : SourcePosition) (read : scan (skipped text) = some found) :
    ∃ token scanner,
      next ⟨position, text⟩ = .ok (token, scanner) ∧ token.lexeme = (found.kind, found.text) ∧
        scanner.rest = found.rest := by
  have here : scan (skipSpaceAndComments false position text).rest = some found := by
    rw [skip_rest false position {} text]
    exact read
  unfold next
  simp only
  split
  · rename_i other read'
    rw [here] at read'
    cases read'
    exact ⟨_, _, rfl, rfl, rfl⟩
  · rename_i read'
    rw [here] at read'
    cases read'

theorem scan_shorter (read : scan (skipped text) = some found) (more : found.kind ≠ .eof) :
    found.rest.length < text.length := by
  obtain ⟨blank, split, _⟩ := skip_split false {} text
  obtain ⟨front, some⟩ := scan_split read
  have lengths := congrArg List.length split
  have parts := congrArg List.length front
  have positive := length_pos_iff.mpr (some more)
  simp only [length_append] at lengths parts
  unfold skipped at parts
  omega

def Tokens.lexemes (tokens : Tokens) : List Lexeme := tokens.tokens.map Token.lexeme

theorem lexFrom_of_lexes {rest : SourceText} {lexemes : List Lexeme}
    (read : Lexes text lexemes rest) (finish : skipped rest = []) (fuel : Nat)
    (position : SourcePosition) (enough : text.length < fuel) :
    (lexFrom fuel ⟨position, text⟩).lexemes = lexemes ++ [(.eof, [])] ∧
      (lexFrom fuel ⟨position, text⟩).refusal = none := by
  induction read generalizing fuel position with
  | done rest =>
    obtain ⟨fuel, rfl⟩ : ∃ n, fuel = n + 1 := ⟨fuel - 1, by omega⟩
    have last : scan (skipped rest) = some ⟨.eof, [], []⟩ := by rw [finish]; rfl
    obtain ⟨token, scanner, moved, lexeme, _⟩ := next_of_scan position last
    have kind : token.kind = .eof := congrArg Prod.fst lexeme
    simp [lexFrom, moved, kind, Tokens.lexemes, lexeme]
  | @token text rest found later read more tail ih =>
    obtain ⟨fuel, rfl⟩ : ∃ n, fuel = n + 1 := ⟨fuel - 1, by omega⟩
    obtain ⟨token, scanner, moved, lexeme, behind⟩ := next_of_scan position read
    have kind : token.kind = found.kind := congrArg Prod.fst lexeme
    have shorter := scan_shorter read more
    have here := ih finish fuel scanner.position (by omega)
    rw [← behind] at here
    simp only [lexFrom, moved, kind, more, if_false]
    refine ⟨?_, here.2⟩
    simp only [Tokens.lexemes, map_cons, lexeme, cons_append]
    exact congrArg _ here.1

theorem lex_of_lexes {rest : SourceText} {lexemes : List Lexeme} (read : Lexes text lexemes rest)
    (finish : skipped rest = []) :
    (lex text).lexemes = lexemes ++ [(.eof, [])] ∧ (lex text).refusal = none :=
  lexFrom_of_lexes read finish _ _ (Nat.lt_succ_self _)

def ParserState.lexemes (state : ParserState) : List Lexeme :=
  (state.current :: state.rest).map Token.lexeme

/-- The parser takes the lexemes and returns a value that has the property. -/
def Reads (parser : Parser α) (lexemes rest : List Lexeme) (good : α → Prop) : Prop :=
  ∀ state : ParserState, state.lexemes = lexemes ++ rest →
    ∃ value later, parser.run state = .ok (value, later) ∧ good value ∧ later.lexemes = rest

theorem reads_pure {value : α} (holds : good value) : Reads (pure value) [] rest good := by
  intro state here
  exact ⟨value, state, rfl, holds, here⟩

theorem Reads.bind {lexemes : List Lexeme} {good : β → Prop}
    (head : Reads first lexemes (later ++ rest) middle)
    (tail : ∀ value, middle value → Reads (second value) later rest good) :
    Reads (first >>= second) (lexemes ++ later) rest good := by
  intro state here
  rw [append_assoc] at here
  obtain ⟨value, moved, run, holds, there⟩ := head state here
  obtain ⟨result, final, run', holds', finish⟩ := tail value holds moved there
  exact ⟨result, final, (run_bind_of_ok run).trans run', holds', finish⟩

theorem Reads.imp {parser : Parser α} {lexemes : List Lexeme} {better : α → Prop}
    (read : Reads parser lexemes rest better) (weaker : ∀ value, better value → good value) :
    Reads parser lexemes rest good := by
  intro state here
  obtain ⟨value, later, run, holds, there⟩ := read state here
  exact ⟨value, later, run, weaker value holds, there⟩

theorem Reads.cons {good : β → Prop} (head : Reads first [lexeme] (later ++ rest) middle)
    (tail : ∀ value, middle value → Reads (second value) later rest good) :
    Reads (first >>= second) (lexeme :: later) rest good := head.bind tail

theorem Reads.last {lexemes : List Lexeme} {good : β → Prop}
    (head : Reads first lexemes rest middle)
    (tail : ∀ value, middle value → Reads (second value) [] rest good) :
    Reads (first >>= second) lexemes rest good := by
  rw [← append_nil lexemes]
  exact Reads.bind head tail

theorem Reads.skip {lexemes : List Lexeme} {good : β → Prop}
    (head : Reads first [] (lexemes ++ rest) middle)
    (tail : ∀ value, middle value → Reads (second value) lexemes rest good) :
    Reads (first >>= second) lexemes rest good := Reads.bind head tail

theorem Reads.peek {next : TokenKind → Parser α} {lexemes : List Lexeme}
    (current : ((lexemes ++ rest).head?.map Prod.fst) = some kind)
    (tail : Reads (next kind) lexemes rest good) :
    Reads (currentKind >>= next) lexemes rest good := by
  intro state here
  rw [← here] at current
  have same : state.current.kind = kind := Option.some.inj current
  obtain ⟨value, later, run, holds, finish⟩ := tail state here
  refine ⟨value, later, ?_, holds, finish⟩
  rw [← run, ← same]
  rfl

theorem advance_run {first : Lexeme} (here : state.lexemes = first :: rest) (more : rest ≠ []) :
    ∃ later, advance.run state = .ok ((), later) ∧ later.lexemes = rest := by
  obtain ⟨current, tokens, refusal, nextNodeId⟩ := state
  simp only [ParserState.lexemes, map_cons, List.cons.injEq] at here
  obtain ⟨_, behind⟩ := here
  cases tokens with
  | nil =>
    rw [map_nil] at behind
    exact absurd behind.symm more
  | cons token tokens => exact ⟨⟨token, tokens, refusal, nextNodeId⟩, rfl, behind⟩

theorem ParserState.current_lexeme {first : Lexeme} (here : state.lexemes = first :: rest) :
    state.current.lexeme = first := by
  simp only [ParserState.lexemes, map_cons, List.cons.injEq] at here
  exact here.1

theorem reads_advance (more : rest ≠ []) : Reads advance [lexeme] rest fun _ => True := by
  intro state here
  obtain ⟨later, run, there⟩ := advance_run here more
  exact ⟨(), later, run, trivial, there⟩

theorem reads_take (more : rest ≠ []) :
    Reads (take kind context) [(kind, text)] rest fun _ => True := by
  intro state here
  obtain ⟨later, run, there⟩ := advance_run here more
  have same : state.current.kind = kind := congrArg Prod.fst (state.current_lexeme here)
  refine ⟨state.current, later, ?_, trivial, there⟩
  unfold take
  rw [run_get_bind, if_pos same, run_bind_of_ok run]
  rfl

theorem reads_takeIdentifier (name : Identifier) (more : rest ≠ []) :
    Reads (takeIdentifier context) [name.lexeme] rest fun found => found.name = name := by
  intro state here
  obtain ⟨later, run, there⟩ := advance_run here more
  have lexeme := state.current_lexeme here
  have same : state.current.kind = .identifier := congrArg Prod.fst lexeme
  have text : String.ofList state.current.text = name.text := by
    rw [show state.current.text = name.text.toList from congrArg Prod.snd lexeme]
    simp
  refine ⟨⟨state.current.span, ⟨String.ofList state.current.text, by
    simpa using state.current.identifier same⟩⟩, later, ?_, Identifier.ext text, there⟩
  unfold takeIdentifier
  rw [run_get_bind, dif_pos same, run_bind_of_ok run]
  rfl

theorem reads_takeInteger (more : rest ≠ []) :
    Reads (takeInteger context) [(.integer, text)] rest fun found => found.digits = text := by
  intro state here
  obtain ⟨later, run, there⟩ := advance_run here more
  have lexeme := state.current_lexeme here
  have same : state.current.kind = .integer := congrArg Prod.fst lexeme
  refine ⟨⟨state.current.span, state.current.text, state.current.integer same⟩, later, ?_,
    congrArg Prod.snd lexeme, there⟩
  unfold takeInteger
  rw [run_get_bind, dif_pos same, run_bind_of_ok run]
  rfl

theorem reads_accept (more : rest ≠ []) :
    Reads (accept kind) [(kind, text)] rest fun found => found = true := by
  apply Reads.peek rfl
  rw [if_pos rfl]
  exact (reads_advance more).last fun _ _ => reads_pure rfl

theorem reads_accept_other (other : ∃ found, rest.head?.map Prod.fst = some found ∧ found ≠ kind) :
    Reads (accept kind) [] rest fun found => found = false := by
  obtain ⟨found, current, other⟩ := other
  refine Reads.peek (show ([] ++ rest).head?.map Prod.fst = some found from current) ?_
  rw [if_neg other]
  exact reads_pure rfl

theorem reads_identified : Reads (identified span) [] rest fun _ => True := by
  intro state here
  exact ⟨_, _, rfl, trivial, here⟩

theorem reads_node {make : NodeInfo → α} (holds : ∀ info, good (make info)) :
    Reads (identified span >>= fun info => pure (make info)) [] rest good :=
  reads_identified.bind fun info _ => reads_pure (holds info)

mutual

/-- Every tuple has two elements or more. -/
def Expr.readable : Expr → Bool
  | .name _ _ => true
  | .boolean _ _ => true
  | .integer _ _ => true
  | .tuple _ elements => 2 ≤ elements.length && readableAll elements
  | .call _ _ elements => readableAll elements
  | .binary _ _ left right => left.readable && right.readable
  | .conditional _ condition yes no => condition.readable && yes.readable && no.readable
  | .hole _ _ => true

def readableAll : List Expr → Bool
  | [] => true
  | element :: elements => element.readable && readableAll elements

end

@[simp] theorem readableAll_iff (elements : List Expr) :
    readableAll elements = true ↔ ∀ element ∈ elements, element.readable = true := by
  induction elements with
  | nil => simp [readableAll]
  | cons element elements ih => simp [readableAll, ih]

def headKind (lexemes : List Lexeme) : Option TokenKind := lexemes.head?.map Prod.fst

theorem ne_nil_of_headKind {lexemes : List Lexeme} (head : headKind lexemes = some kind) :
    lexemes ≠ [] := by
  rintro rfl
  cases head

theorem headKind_lexemes (expression : Expr) (rest : List Lexeme) : ∃ kind,
    headKind (expression.lexemes ++ rest) = some kind ∧ startsExpression kind = true := by
  obtain ⟨first, later, shape, starts⟩ := lexemes_cons expression
  exact ⟨first.1, by rw [shape]; rfl, starts⟩

/-- The operators by precedence, the tightest first. -/
def operatorLevels : List (TokenKind → Option BinaryOp) :=
  [additiveOperators, relationalOperators, equalityOperators, logicalAndOperators,
    logicalOrOperators]

def levels (operators : List (TokenKind → Option BinaryOp)) (operand : Parser Expr) (fuel : Nat) :
    Parser Expr :=
  operators.foldl (fun inner level => binaryLevel level inner fuel) operand

theorem binaryLevel_pass {level : TokenKind → Option BinaryOp} {lexemes : List Lexeme}
    {good : Expr → Prop} (read : Reads operand lexemes rest good) (head : headKind rest = some kind)
    (outside : level kind = none) (enough : 0 < fuel) :
    Reads (binaryLevel level operand fuel) lexemes rest good := by
  obtain ⟨fuel, rfl⟩ : ∃ n, fuel = n + 1 := ⟨fuel - 1, by omega⟩
  apply read.last
  intro value holds
  refine Reads.peek (show ([] ++ rest).head?.map Prod.fst = some kind from head) ?_
  rw [outside]
  exact reads_pure holds

theorem levels_pass {operators : List (TokenKind → Option BinaryOp)} {lexemes : List Lexeme}
    {good : Expr → Prop} (read : Reads operand lexemes rest good) (head : headKind rest = some kind)
    (outside : ∀ level ∈ operators, level kind = none) (enough : 0 < fuel) :
    Reads (levels operators operand fuel) lexemes rest good := by
  induction operators generalizing operand with
  | nil => exact read
  | cons level operators ih =>
    have inner := binaryLevel_pass read head (outside level (by simp)) enough
    exact ih inner fun level member => outside level (by simp [member])

/-- Kinds of tokens before which an expression ends. -/
def endsExpression (kind : TokenKind) : Bool :=
  kind != .leftParen && operatorLevels.all fun level => (level kind).isNone

theorem endsExpression_outside (ends : endsExpression kind = true) :
    kind ≠ .leftParen ∧ ∀ level ∈ operatorLevels, level kind = none := by
  simp only [endsExpression, Bool.and_eq_true, bne_iff_ne, all_eq_true,
    Option.isNone_iff_eq_none] at ends
  exact ends

/-- Read back as a primary, before any rest that does not open a call. -/
def ReadsBack (expression : Expr) : Prop :=
  ∀ fuel rest kind, headKind rest = some kind → kind ≠ .leftParen →
    (expression.lexemes ++ rest).length ≤ fuel →
      Reads (primary (expr fuel) fuel) expression.lexemes rest
        fun found => found.strip = expression.strip

theorem ReadsBack.expr {expression : Expr} (back : ReadsBack expression)
    (head : headKind rest = some kind) (ends : endsExpression kind = true)
    (enough : (expression.lexemes ++ rest).length < fuel) :
    Reads (expr fuel) expression.lexemes rest fun found => found.strip = expression.strip := by
  obtain ⟨fuel, rfl⟩ : ∃ n, fuel = n + 1 := ⟨fuel - 1, by omega⟩
  have outside := endsExpression_outside ends
  have positive : 0 < fuel := by
    have := length_pos_iff.mpr (ne_nil_of_headKind head)
    simp only [length_append] at enough
    omega
  exact levels_pass (back fuel rest kind head outside.1 (by omega)) head outside.2 positive

theorem reads_separator_comma (more : rest ≠ []) :
    Reads (separator close message) [(.comma, text)] rest fun _ => True := by
  apply (reads_accept more).last
  rintro _ rfl
  rw [if_pos rfl]
  exact reads_pure trivial

theorem reads_separator_close (head : headKind rest = some close) (other : close ≠ .comma) :
    Reads (separator close message) [] rest fun _ => True := by
  apply (reads_accept_other ⟨close, head, other⟩).last
  rintro _ rfl
  rw [if_neg (by decide)]
  refine Reads.peek (show ([] ++ rest).head?.map Prod.fst = some close from head) ?_
  rw [if_pos rfl]
  exact reads_pure trivial

theorem separatedItems_nil (head : headKind rest = some close) (enough : 0 < rounds) :
    Reads (separatedItems close message item rounds) [] rest fun found => found = [] := by
  obtain ⟨rounds, rfl⟩ : ∃ n, rounds = n + 1 := ⟨rounds - 1, by omega⟩
  refine Reads.peek (show ([] ++ rest).head?.map Prod.fst = some close from head) ?_
  rw [if_pos rfl]
  exact reads_pure rfl

theorem separatedItems_cons {lexemes between : List Lexeme} {goods : List α → Prop}
    (first : headKind (lexemes ++ (between ++ later ++ rest)) = some kind) (opening : kind ≠ close)
    (head : Reads item lexemes (between ++ later ++ rest) good)
    (separate : Reads (separator close message) between (later ++ rest) fun _ => True)
    (tail : Reads (separatedItems close message item rounds) later rest goods) :
    Reads (separatedItems close message item (rounds + 1)) (lexemes ++ (between ++ later)) rest
      fun found => ∃ value values, found = value :: values ∧ good value ∧ goods values := by
  have shape : lexemes ++ (between ++ later) ++ rest = lexemes ++ (between ++ later ++ rest) := by
    simp only [append_assoc]
  rw [← shape] at first
  apply Reads.peek first
  rw [if_neg opening]
  apply head.bind
  intro value holds
  rw [append_assoc] at *
  apply separate.bind
  intro _ _
  apply tail.last
  intro values holdsAll
  exact reads_pure ⟨value, values, rfl, holds, holdsAll⟩

end Fine.Syntax
