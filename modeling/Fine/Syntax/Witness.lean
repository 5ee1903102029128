import Fine.Syntax.Declarations
import Fine.Syntax.Grammar

/-!
# Sources of one declaration

The runtime prints a witness as a source of one declaration and parses it again.
-/

namespace Fine.Syntax

open Fine.Fallible List

variable {α β : Type}

variable {kind : TokenKind} {good : α → Prop} {item : Parser α} {rounds : Nat}

namespace Lexes

variable {text rest : SourceText} {lexemes : List Lexeme}

theorem mark {character : Char}
    (known : (character, kind) ∈ [('(', TokenKind.leftParen), (')', .rightParen),
      ('\x7b', .leftBrace), ('\x7d', .rightBrace), (':', .colon), (',', .comma),
      (';', .semicolon), ('+', .plus), ('-', .minus), ('?', .question)])
    (tail : Lexes text lexemes rest) :
    Lexes (character :: text) ((kind, [character]) :: lexemes) rest :=
  (punctuation known text).append tail

theorem space (tail : Lexes text lexemes rest) (some : lexemes ≠ []) :
    Lexes (' ' :: text) lexemes rest := blank (by decide) tail some

theorem equal (tail : Lexes text lexemes rest) (some : lexemes ≠ []) :
    Lexes ('=' :: ' ' :: text) ((.equal, ['=']) :: lexemes) rest := by
  have sign : Lexes ('=' :: ' ' :: text) [(.equal, ['='])] (' ' :: text) :=
    single (by decide) rfl (by simp [doubleSymbol])
  exact sign.append (tail.space some)

theorem name (name : Identifier) (tail : Lexes text lexemes rest)
    (stops : Scan.Stops isNameContinue text) :
    Lexes (name.text.toList ++ text) (name.lexeme :: lexemes) rest :=
  (identifier name stops).append tail

end Lexes

theorem Reads.map {parser : Parser α} {change : α → β} {lexemes rest : List Lexeme}
    {middle : α → Prop} {good : β → Prop} (read : Reads parser lexemes rest middle)
    (holds : ∀ value, middle value → good (change value)) :
    Reads (change <$> parser) lexemes rest good := by
  intro state here
  obtain ⟨value, later, run, is, there⟩ := read state here
  refine ⟨change value, later, ?_, holds value is, there⟩
  rw [← bind_pure_comp, run_bind_of_ok run]
  rfl

theorem Reads.get {next : ParserState → Parser α} {lexemes rest : List Lexeme}
    (read : ∀ state, Reads (next state) lexemes rest good) :
    Reads (MonadState.get >>= next) lexemes rest good := by
  intro state here
  rw [run_get_bind]
  exact read state state here

variable {close : TokenKind}

theorem itemsUntil_nil {rest : List Lexeme} (head : headKind rest = some close)
    (enough : 0 < rounds) :
    Reads (itemsUntil close item rounds) [] rest fun found => found = [] := by
  obtain ⟨rounds, rfl⟩ : ∃ n, rounds = n + 1 := ⟨rounds - 1, by omega⟩
  refine Reads.peek (show ([] ++ rest).head?.map Prod.fst = some close from head) ?_
  rw [if_pos rfl]
  exact reads_pure rfl

theorem itemsUntil_cons {lexemes later rest : List Lexeme} {goods : List α → Prop}
    (first : headKind (lexemes ++ later ++ rest) = some kind) (opening : kind ≠ close)
    (head : Reads item lexemes (later ++ rest) good)
    (tail : Reads (itemsUntil close item rounds) later rest goods) :
    Reads (itemsUntil close item (rounds + 1)) (lexemes ++ later) rest
      fun found => ∃ value values, found = value :: values ∧ good value ∧ goods values := by
  apply Reads.peek first
  rw [if_neg opening]
  apply head.bind
  intro value holds
  apply tail.last
  intro values holdsAll
  exact reads_pure ⟨value, values, rfl, holds, holdsAll⟩

theorem headKind_append {front later : List Lexeme} (first : headKind front = some kind) :
    headKind (front ++ later) = some kind := by
  cases front with
  | nil => cases first
  | cons => exact first

theorem loop_all {γ : Type} {loop : Nat → Parser (List α)} {spell : γ → List Lexeme}
    {related : α → γ → Prop} {rest : List Lexeme} {items : List γ}
    (stop : ∀ {rounds}, 0 < rounds → Reads (loop rounds) [] rest fun found => found = [])
    (round : ∀ entry ∈ items, ∀ later rounds goods,
      later.length + (spell entry).length ≤ (items.flatMap spell).length →
      Reads (loop rounds) later rest goods →
      Reads (loop (rounds + 1)) (spell entry ++ later) rest
        fun found => ∃ value values, found = value :: values ∧ related value entry ∧ goods values)
    (enough : items.length < rounds) :
    Reads (loop rounds) (items.flatMap spell) rest
      fun found => Forall₂ related found items := by
  induction items generalizing rounds with
  | nil =>
    refine (stop (by omega)).imp ?_
    rintro _ rfl
    exact .nil
  | cons entry items ih =>
    obtain ⟨rounds, rfl⟩ : ∃ n, rounds = n + 1 := ⟨rounds - 1, by omega⟩
    obtain ⟨here, others⟩ := forall_mem_cons.mp round
    simp only [flatMap_cons, length_append] at here others ⊢
    have tail := ih (fun other member later rounds goods fits =>
      others other member later rounds goods (by omega)) (by simpa using enough)
    refine (here _ rounds _ (by omega) tail).imp ?_
    rintro _ ⟨value, values, rfl, holds, holdsAll⟩
    exact .cons holds holdsAll

/-- Items that are each read are read up to the closing token. -/
theorem itemsUntil_all {γ : Type} {spell : γ → List Lexeme} {related : α → γ → Prop}
    {rest : List Lexeme} (closing : headKind rest = some close) {items : List γ}
    (each : ∀ entry ∈ items, ∀ after, after ≠ [] → after.length + (spell entry).length ≤
      (items.flatMap spell ++ rest).length → Reads item (spell entry) after (related · entry))
    (opens : ∀ entry ∈ items, ∃ kind, headKind (spell entry) = some kind ∧ kind ≠ close)
    (enough : items.length < rounds) :
    Reads (itemsUntil close item rounds) (items.flatMap spell) rest
      fun found => Forall₂ related found items := by
  refine loop_all (itemsUntil_nil closing) ?_ enough
  intro entry member later rounds goods fits tail
  obtain ⟨kind, first, opening⟩ := opens entry member
  refine itemsUntil_cons (headKind_append (headKind_append first)) opening
    (each entry member _ (by simp [ne_nil_of_headKind closing]) ?_) tail
  simp only [length_append]
  omega

theorem separatedItems_all {γ : Type} {message : String} {spell : γ → List Lexeme}
    {related : α → γ → Prop} {rest : List Lexeme} (closing : headKind rest = some close)
    {items : List γ}
    (each : ∀ entry ∈ items, ∀ after, headKind after = some .comma →
      after.length + (spell entry).length ≤
        (items.flatMap (fun entry => spell entry ++ [(TokenKind.comma, [','])]) ++ rest).length →
      Reads item (spell entry) after (related · entry))
    (opens : ∀ entry ∈ items, ∃ kind, headKind (spell entry) = some kind ∧ kind ≠ close)
    (enough : items.length < rounds) :
    Reads (separatedItems close message item rounds)
      (items.flatMap fun entry => spell entry ++ [(.comma, [','])]) rest
      fun found => Forall₂ related found items := by
  refine loop_all (separatedItems_nil closing) ?_ enough
  intro entry member later rounds goods fits tail
  obtain ⟨kind, first, opening⟩ := opens entry member
  rw [append_assoc]
  refine separatedItems_cons (headKind_append first) opening (each entry member _ rfl ?_)
    (reads_separator_comma (by simp [ne_nil_of_headKind closing])) tail
  simp only [length_append] at fits ⊢
  omega

theorem parseWith_of_reads {parser : Nat → Parser α} {text rest : SourceText}
    {lexemes : List Lexeme} (lexed : Lexes text lexemes rest) (finish : skipped rest = [])
    (reads : ∀ fuel, lexemes.length + 1 < fuel → Reads (parser fuel) lexemes [(.eof, [])] good) :
    ∃ value, parseWith parser text = .ok value ∧ good value := by
  obtain ⟨all, refusal⟩ := lex_of_lexes lexed finish
  cases tokens : (lex text).tokens with
  | nil =>
    rw [Tokens.lexemes, tokens] at all
    simp at all
  | cons first later =>
    rw [Tokens.lexemes, tokens] at all
    have counted := congrArg List.length all
    simp only [map_cons, length_cons, length_map, length_append, length_nil] at counted
    have begun : start text = .ok ⟨first, later, none, 0⟩ := by
      have shape : lex text = ⟨first :: later, none⟩ := by
        rw [← tokens, ← refusal]
      rw [start, shape]
    obtain ⟨value, after, run, holds, -⟩ :=
      reads (later.length + 2) (by omega) ⟨first, later, none, 0⟩ all
    refine ⟨value, ?_, holds⟩
    simp only [parseWith, begun, bind, Except.bind]
    rw [run]
    rfl

theorem parse_of_declaration {text rest : SourceText} {lexemes : List Lexeme}
    {good : Declaration → Prop} (lexed : Lexes text lexemes rest) (finish : skipped rest = [])
    (first : headKind lexemes = some kind) (opening : kind ≠ .eof)
    (reads : ∀ fuel, lexemes.length + 1 < fuel → Reads (declaration fuel) lexemes [(.eof, [])] good) :
    ∃ span found, parse text = .ok ⟨span, [found]⟩ ∧ good found := by
  have whole : ∀ fuel, lexemes.length + 1 < fuel → Reads (document fuel) lexemes [(.eof, [])]
      fun found => ∃ one, found.declarations = [one] ∧ good one := by
    intro fuel enough
    obtain ⟨more, rfl⟩ : ∃ n, fuel = n + 2 := ⟨fuel - 2, by omega⟩
    apply Reads.get
    intro state
    have none : Reads (itemsUntil .eof (declaration (more + 2)) (more + 1)) [] [(.eof, [])]
        fun found => found = [] := itemsUntil_nil rfl (by omega)
    have items := itemsUntil_cons (headKind_append (headKind_append first)) opening
      (reads (more + 2) enough) none
    rw [append_nil] at items
    apply items.last
    rintro found ⟨one, others, rfl, holds, rfl⟩
    apply Reads.get
    intro last
    exact reads_pure ⟨one, rfl, holds⟩
  obtain ⟨⟨span, declarations⟩, parsed, one, shape, holds⟩ := parseWith_of_reads lexed finish whole
  simp only at shape
  exact ⟨span, one, shape ▸ parsed, holds⟩

end Fine.Syntax
