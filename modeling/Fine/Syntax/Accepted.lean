import Fine.Library.Intervals
import Fine.Syntax.Relexed
import Fine.Syntax.Witness

/-!
# What the parser accepts

`Goes` follows a parser from one state: it refuses the source or returns with a property, and has
fuel enough. So it returns only what the grammar derives.
-/

namespace Fine.Syntax

open Fine.Fallible Fine.Intervals List

variable {α β : Type}

/-! ## Following a parser -/

def ParserState.tokens (state : ParserState) : List Token := state.current :: state.rest

def Ends (tokens : List Token) : Prop := ∃ front last, tokens = front ++ [last] ∧ last.kind = .eof

theorem run_choice (kind : TokenKind) (yes no : Parser β) (state : ParserState) :
    StateT.run (currentKind >>= fun current => if current = kind then yes else no) state =
      if state.current.kind = kind then yes.run state else no.run state := by
  change StateT.run (if state.current.kind = kind then yes else no) state = _
  split <;> rfl

theorem run_accept_bind (kind : TokenKind) (next : Bool → Parser β) (state : ParserState) :
    StateT.run (Syntax.accept kind >>= next) state =
      if state.current.kind = kind then
        StateT.run (Syntax.take kind "" >>= fun _ => next true) state
      else (next false).run state := by
  by_cases here : state.current.kind = kind
  · have taken : (Syntax.take kind "").run state =
        StateT.run (advance >>= fun _ => Pure.pure state.current) state := by
      unfold Syntax.take
      rw [run_get_bind, if_pos here]
    rw [if_pos here, StateT.run_bind, StateT.run_bind, taken]
    unfold Syntax.accept
    rw [run_choice, if_pos here, StateT.run_bind, StateT.run_bind]
    cases advance.run state <;> rfl
  · rw [if_neg here, StateT.run_bind]
    unfold Syntax.accept
    rw [run_choice, if_neg here]
    rfl

/-- The parser refuses the source or returns with the property, within its fuel. -/
def Goes (state : ParserState) (parser : Parser α) (good : α → ParserState → Prop) : Prop :=
  match parser.run state with
  | .ok (value, later) => good value later
  | .error (.parse _) => True
  | .error .exhausted => False

/-- The end of the file stands last only, unless the lexer stopped before it. -/
structure Stream (whole : List Token) (refusal : Option ParseError) : Prop where
  ends : refusal = none → Ends whole
  last : ∀ front token later, whole = front ++ token :: later → token.kind = .eof → later = []

/-- The parser stands among the tokens of a source. -/
structure At (whole : List Token) (refusal : Option ParseError) (state : ParserState) : Prop where
  /-- What is left of the tokens is the end of the whole. -/
  suffix : state.tokens <:+ whole
  /-- What stops the lexer stays the same. -/
  refused : state.refusal = refusal

variable {good : α → ParserState → Prop} {expression : Expr}

section Goes

variable {whole : List Token} {refusal : Option ParseError} {state later : ParserState}

theorem Goes.pure {value : α} (holds : good value state) :
    Goes state (Pure.pure value) good := holds

theorem Goes.imp {parser : Parser α} {weaker : α → ParserState → Prop}
    (goes : Goes state parser good) (less : ∀ value later, good value later → weaker value later) :
    Goes state parser weaker := by
  unfold Goes at goes ⊢
  split at goes
  · exact less _ _ goes
  · trivial
  · exact goes

theorem Goes.bind {first : Parser α} {second : α → Parser β} {middle : α → ParserState → Prop}
    {good : β → ParserState → Prop} (head : Goes state first middle)
    (tail : ∀ value later, middle value later → Goes later (second value) good) :
    Goes state (first >>= second) good := by
  unfold Goes at head
  split at head
  · rename_i value later run
    have rest := tail value later head
    unfold Goes at rest ⊢
    rw [run_bind_of_ok run]
    exact rest
  · rename_i refused run
    unfold Goes
    rw [run_bind_of_error run]
    trivial
  · exact head.elim

theorem Goes.fail {message : String} : Goes state (Syntax.fail message) good := trivial

theorem Goes.peek {next : TokenKind → Parser α} (tail : Goes state (next state.current.kind) good) :
    Goes state (currentKind >>= next) good := tail

theorem Goes.get {next : ParserState → Parser α} (tail : Goes state (next state) good) :
    Goes state (MonadState.get >>= next) good := tail

/-- The next state, one token on. -/
structure Stepped (whole : List Token) (refusal : Option ParseError) (state later : ParserState) :
    Prop where
  /-- It stands among the same tokens. -/
  standing : At whole refusal later
  tokens : state.tokens = state.current :: later.tokens
  number : later.nextNodeId = state.nextNodeId

namespace Goes

variable (stream : Stream whole refusal) (standing : At whole refusal state)

include stream standing

theorem advance (more : state.current.kind ≠ .eof) :
    Goes state Syntax.advance fun _ later => Stepped whole refusal state later := by
  obtain ⟨current, rest, refused, number⟩ := state
  obtain ⟨⟨front, suffix⟩, same⟩ := standing
  subst same
  cases rest with
  | cons token rest =>
    exact ⟨⟨⟨front ++ [current], by rw [← suffix]; simp [ParserState.tokens]⟩, rfl⟩, rfl, rfl⟩
  | nil =>
    cases refused with
    | some refusal => trivial
    | none =>
      obtain ⟨front', last, shape, kind⟩ := stream.ends rfl
      rw [← suffix] at shape
      have lasts := append_inj_right' shape rfl
      cases lasts
      exact absurd kind more

theorem take {kind : TokenKind} {context : String} (more : kind ≠ .eof) :
    Goes state (Syntax.take kind context) fun token later =>
      token = state.current ∧ state.current.kind = kind ∧ Stepped whole refusal state later := by
  unfold Syntax.take
  apply Goes.get
  by_cases here : state.current.kind = kind
  · rw [if_pos here]
    apply (Goes.advance stream standing (by rw [here]; exact more)).bind
    intro _ later stepped
    exact Goes.pure ⟨rfl, here, stepped⟩
  · rw [if_neg here]
    exact Goes.fail

theorem takeIdentifier {context : String} :
    Goes state (Syntax.takeIdentifier context) fun name later =>
      name.span = state.current.span ∧ state.current.lexeme = name.name.lexeme ∧
        Stepped whole refusal state later := by
  unfold Syntax.takeIdentifier
  apply Goes.get
  by_cases here : state.current.kind = .identifier
  · rw [dif_pos here]
    apply (Goes.advance stream standing (by rw [here]; decide)).bind
    intro _ later stepped
    refine Goes.pure ⟨rfl, ?_, stepped⟩
    simp [Token.lexeme, Identifier.lexeme, here]
  · rw [dif_neg here]
    exact Goes.fail

theorem takeInteger {context : String} :
    Goes state (Syntax.takeInteger context) fun found later =>
      found.span = state.current.span ∧ state.current.kind = .integer ∧
        found.digits = state.current.text ∧ Stepped whole refusal state later := by
  unfold Syntax.takeInteger
  apply Goes.get
  by_cases here : state.current.kind = .integer
  · rw [dif_pos here]
    apply (Goes.advance stream standing (by rw [here]; decide)).bind
    intro _ later stepped
    exact Goes.pure ⟨rfl, here, rfl, stepped⟩
  · rw [dif_neg here]
    exact Goes.fail

theorem accept {kind : TokenKind} (more : kind ≠ .eof) {next : Bool → Parser β}
    {good : β → ParserState → Prop}
    (yes : ∀ later, state.current.kind = kind → Stepped whole refusal state later →
      Goes later (next true) good) (no : state.current.kind ≠ kind → Goes state (next false) good) :
    Goes state (Syntax.accept kind >>= next) good := by
  unfold Goes
  rw [run_accept_bind]
  by_cases here : state.current.kind = kind
  · rw [if_pos here]
    apply (Goes.take stream standing more).bind
    rintro _ later ⟨-, -, stepped⟩
    exact yes later here stepped
  · rw [if_neg here]
    exact no here

end Goes

theorem Goes.choice {kind : TokenKind} {yes no : Parser α}
    (accepted : state.current.kind = kind → Goes state yes good)
    (refused : state.current.kind ≠ kind → Goes state no good) :
    Goes state (currentKind >>= fun current => if current = kind then yes else no) good := by
  apply Goes.peek
  split
  · exact accepted ‹_›
  · exact refused ‹_›

/-- Tokens at the front, and numbers from the next on. -/
def Took (whole : List Token) (refusal : Option ParseError)
    (written : List Token → Nat → Nat → α → Prop) (state : ParserState) (value : α)
    (later : ParserState) : Prop :=
  At whole refusal later ∧ ∃ taken, state.tokens = taken ++ later.tokens ∧
    written taken state.nextNodeId later.nextNodeId value

end Goes

/-! ## Numbers of nodes -/

def NodeInfo.label (info : NodeInfo) : Label :=
  ⟨info.nodeId, info.span.start.offset, info.span.stop.offset⟩

mutual

/-- The nodes with their numbers and intervals. -/
def Expr.tree : Expr → Rose
  | .name info _ => .node info.label []
  | .boolean info _ => .node info.label []
  | .integer info _ => .node info.label []
  | .tuple info elements => .node info.label (treesOf elements)
  | .call info _ elements => .node info.label (treesOf elements)
  | .binary info _ left right => .node info.label [left.tree, right.tree]
  | .conditional info condition yes no => .node info.label [condition.tree, yes.tree, no.tree]
  | .hole info _ => .node info.label []

def treesOf : List Expr → List Rose
  | [] => []
  | expression :: expressions => expression.tree :: treesOf expressions

end

@[simp] theorem treesOf_eq_map (expressions : List Expr) :
    treesOf expressions = expressions.map Expr.tree := by
  induction expressions with
  | nil => rfl
  | cons expression expressions ih => rw [treesOf, ih, map_cons]

theorem Expr.tree_eq (expression : Expr) :
    expression.tree = .node expression.info.label (expression.elements.map Expr.tree) := by
  cases expression <;> simp [Expr.tree, Expr.elements, Expr.info]

/-! ## What the parser returns is derived -/

/-- Values with commas between them, each written as it should be. -/
inductive Sequence (written : List Token → Nat → Nat → α → Prop) :
    List Token → Nat → Nat → List α → Prop where
  | nil (number : Nat) : Sequence written [] number number []
  /-- A value without a comma behind it. -/
  | last {tokens : List Token} {first next : Nat} {value : α}
      (head : written tokens first next value) : Sequence written tokens first next [value]
  /-- A value with a comma behind it. -/
  | cons {tokens rest : List Token} {comma : Token} {first middle next : Nat} {value : α}
      {values : List α} (head : written tokens first middle value) (isComma : comma.kind = .comma)
      (tail : Sequence written rest middle next values) :
      Sequence written (tokens ++ comma :: rest) first next (value :: values)

section Items

variable {whole : List Token} {refusal : Option ParseError}
  {written : List Token → Nat → Nat → α → Prop} {item : Parser α}

/-- With fewer tokens than the bound the parser is followed, and takes one. -/
def Writes (whole : List Token) (refusal : Option ParseError) (bound : Nat) (item : Parser α)
    (written : List Token → Nat → Nat → α → Prop) : Prop :=
  ∀ state, At whole refusal state → state.tokens.length < bound →
    Goes state item fun value later => Took whole refusal written state value later ∧
      later.tokens.length < state.tokens.length

theorem run_separatedItems_close {close : TokenKind} {message : String} (rounds : Nat)
    {state : ParserState} (here : state.current.kind = close) :
    (separatedItems close message item (rounds + 1)).run state = .ok ([], state) := by
  unfold separatedItems
  rw [run_choice, if_pos here]
  rfl

/-- Items with commas up to the closing token. -/
theorem goes_separatedItems (stream : Stream whole refusal) {bound : Nat}
    (each : Writes whole refusal bound item written) {close : TokenKind} (message : String)
    (rounds : Nat) {state : ParserState} (standing : At whole refusal state)
    (room : state.tokens.length < bound) (enough : state.tokens.length < rounds) :
    Goes state (separatedItems close message item rounds) fun values later =>
      Took whole refusal (Sequence written) state values later ∧ later.current.kind = close := by
  induction rounds generalizing state with
  | zero => omega
  | succ rounds ih =>
    unfold separatedItems
    apply Goes.choice
    · intro closing
      exact Goes.pure ⟨⟨standing, [], rfl, .nil _⟩, closing⟩
    · intro _
      apply (each state standing room).bind
      rintro value after ⟨⟨standing', taken, front, holds⟩, shorter⟩
      unfold separator
      by_cases isComma : after.current.kind = .comma
      · have step : Goes after (accept .comma >>= fun accepted =>
            if accepted = true then pure () else do
              if (← currentKind) = close then pure () else fail message)
            fun _ later => Stepped whole refusal after later :=
          Goes.accept stream standing' (by decide) (fun later _ stepped => Goes.pure stepped)
            fun other => absurd isComma other
        apply step.bind
        intro _ next stepped
        have fewer : next.tokens.length < after.tokens.length := by
          rw [stepped.tokens]
          simp
        apply (ih stepped.standing (by omega) (by omega)).bind
        rintro values later ⟨⟨standing'', taken', front', rest⟩, closing⟩
        refine Goes.pure ⟨⟨standing'', taken ++ after.current :: taken', ?_, ?_⟩, closing⟩
        · rw [front, stepped.tokens, front']
          simp
        · rw [stepped.number] at rest
          exact .cons holds isComma rest
      · have stop : Goes after (accept .comma >>= fun accepted =>
            if accepted = true then pure () else do
              if (← currentKind) = close then pure () else fail message)
            fun _ later => later = after ∧ after.current.kind = close :=
          Goes.accept stream standing' (by decide) (fun _ here => absurd here isComma) fun _ =>
            Goes.choice (fun closing => Goes.pure ⟨rfl, closing⟩) fun _ => Goes.fail
        apply stop.bind
        rintro _ after ⟨rfl, closing⟩
        obtain ⟨rounds, rfl⟩ : ∃ n, rounds = n + 1 := ⟨rounds - 1, by omega⟩
        have done : Goes after (separatedItems close message item (rounds + 1))
            fun values later => values = [] ∧ later = after := by
          unfold Goes
          rw [run_separatedItems_close rounds closing]
          exact ⟨rfl, rfl⟩
        apply done.bind
        rintro _ _ ⟨rfl, rfl⟩
        exact Goes.pure ⟨⟨standing', taken, front, .last holds⟩, closing⟩

end Items

/-- An expression of a level, numbered in order. -/
def Written (level : Nat) (tokens : List Token) (first next : Nat) (expression : Expr) : Prop :=
  Derives NodeInfo.Exact level tokens expression ∧ Numbered first next (numbersOf [expression.tree])

theorem Sequence.parts {level : Nat} {tokens : List Token} {first next : Nat}
    {expressions : List Expr} (sequence : Sequence (Written level) tokens first next expressions) :
    ∃ parts : List (List Token × Expr), expressions = parts.map Prod.snd ∧
      Separated (parts.map Prod.fst) tokens ∧
      (∀ part ∈ parts, Derives NodeInfo.Exact level part.1 part.2) ∧
      Numbered first next (numbersOf (expressions.map Expr.tree)) := by
  induction sequence with
  | nil number => exact ⟨[], rfl, .nil, by simp, Numbered.nil number⟩
  | @last tokens first next value head =>
    exact ⟨[(tokens, value)], rfl, .last tokens, by simpa using head.1, head.2⟩
  | @cons tokens rest comma first middle next value values head isComma tail ih =>
    obtain ⟨parts, rfl, separated, each, numbered⟩ := ih
    refine ⟨(tokens, value) :: parts, rfl, .cons tokens isComma separated, ?_, ?_⟩
    · exact forall_mem_cons.mpr ⟨head.1, each⟩
    · have all := head.2.append numbered
      rwa [← numbersOf_append] at all

theorem Expr.numbered {first next : Nat}
    (inner : Numbered first next (numbersOf (expression.elements.map Expr.tree)))
    (number : expression.info.nodeId = next) :
    Numbered first (next + 1) (numbersOf [expression.tree]) := by
  have shape : numbersOf [expression.tree] =
      next :: numbersOf (expression.elements.map Expr.tree) := by
    rw [Expr.tree_eq, ← number]
    simp [numbersOf, Rose.nodesAll, Rose.nodes, Rose.label, NodeInfo.label]
  rw [shape]
  exact inner.cons

section Expressions

variable {whole : List Token} {refusal : Option ParseError} {state : ParserState}

theorem goes_node (standing : At whole refusal state) {span : SourceSpan} {make : NodeInfo → Expr} :
    Goes state (identified span >>= fun info => pure (make info)) fun value later =>
      value = make ⟨span, state.nextNodeId⟩ ∧ At whole refusal later ∧
        later.tokens = state.tokens ∧ later.nextNodeId = state.nextNodeId + 1 :=
  ⟨rfl, ⟨standing.suffix, standing.refused⟩, rfl, rfl⟩

/-- With so many tokens at most, the parser returns what the level derives. -/
def WritesLevel (whole : List Token) (refusal : Option ParseError) (room level : Nat)
    (parser : Parser Expr) : Prop :=
  ∀ state, At whole refusal state → state.tokens.length ≤ room →
    Goes state parser (Took whole refusal (Written level) state)

theorem Took.shorter {level : Nat} {later : ParserState}
    (took : Took whole refusal (Written level) state expression later) :
    later.tokens.length < state.tokens.length := by
  obtain ⟨-, taken, front, derives, -⟩ := took
  have positive := length_pos_iff.mpr derives.ne_nil
  rw [front, length_append]
  omega

variable (stream : Stream whole refusal)

include stream

section

variable (standing : At whole refusal state)

include standing

theorem goes_hole :
    Goes state hole (Took whole refusal (Written 0) state) := by
  apply (Goes.take stream standing (by decide)).bind
  rintro _ s₁ ⟨rfl, isMark, first⟩
  apply (Goes.takeIdentifier stream first.standing).bind
  rintro word s₂ ⟨place, named, second⟩
  apply (goes_node second.standing).imp
  rintro _ later ⟨rfl, standing', tokens, number⟩
  refine ⟨standing', [state.current, s₁.current], ?_, ?_, ?_⟩
  · rw [tokens, first.tokens, second.tokens]
    rfl
  · exact .hole isMark named (by rw [place]; rfl)
  · rw [number]
    exact Expr.numbered (by rw [second.number, first.number]; exact Numbered.nil _) rfl

theorem goes_booleanLiteral {value : Bool} (here : state.current.kind = booleanKind value) :
    Goes state (booleanLiteral value) (Took whole refusal (Written 0) state) := by
  apply Goes.get
  apply (Goes.advance stream standing (by rw [here]; cases value <;> decide)).bind
  intro _ s₁ first
  apply (goes_node first.standing).imp
  rintro _ later ⟨rfl, standing', tokens, number⟩
  refine ⟨standing', [state.current], ?_, .boolean here rfl, ?_⟩
  · rw [tokens, first.tokens]
    rfl
  · rw [number]
    exact Expr.numbered (by rw [first.number]; exact Numbered.nil _) rfl

theorem goes_integerLiteral :
    Goes state integerLiteral (Took whole refusal (Written 0) state) := by
  apply (Goes.takeInteger stream standing).bind
  rintro found s₁ ⟨place, isInteger, same, first⟩
  apply (goes_node first.standing).imp
  rintro _ later ⟨rfl, standing', tokens, number⟩
  refine ⟨standing', [state.current], ?_, .integer isInteger rfl same place, ?_⟩
  · rw [tokens, first.tokens]
    rfl
  · rw [number]
    exact Expr.numbered (by rw [first.number]; exact Numbered.nil _) rfl

theorem goes_negativeLiteral :
    Goes state negativeLiteral (Took whole refusal (Written 0) state) := by
  apply (Goes.take stream standing (by decide)).bind
  rintro _ s₁ ⟨rfl, isSign, first⟩
  apply (Goes.takeInteger stream first.standing).bind
  rintro found s₂ ⟨place, isInteger, same, second⟩
  apply (goes_node second.standing).imp
  rintro _ later ⟨rfl, standing', tokens, number⟩
  refine ⟨standing', [state.current, s₁.current], ?_, ?_, ?_⟩
  · rw [tokens, first.tokens, second.tokens]
    rfl
  · exact .negative isSign isInteger rfl same (by rw [place]; rfl)
  · rw [number]
    exact Expr.numbered (by rw [second.number, first.number]; exact Numbered.nil _) rfl

end

variable {inner : Parser Expr} {bound : Nat}

section

variable (each : Writes whole refusal bound inner (Written loosest))

include each

/-- Names and calls. -/
theorem goes_nameOrCall (standing : At whole refusal state)
    {fuel : Nat} (room : state.tokens.length ≤ bound) (enough : bound ≤ fuel) :
    Goes state (nameOrCall inner fuel) (Took whole refusal (Written 0) state) := by
  apply (Goes.takeIdentifier stream standing).bind
  rintro word s₁ ⟨place, named, first⟩
  have fewer : s₁.tokens.length < state.tokens.length := by
    rw [first.tokens]
    simp
  refine Goes.accept stream first.standing (by decide) ?_ ?_
  · intro s₂ opens second
    have fewer' : s₂.tokens.length < s₁.tokens.length := by
      rw [second.tokens]
      simp
    apply (goes_separatedItems stream each _ fuel second.standing (by omega) (by omega)).bind
    rintro arguments s₃ ⟨⟨third, taken, front, sequence⟩, -⟩
    apply (Goes.take stream third (by decide)).bind
    rintro _ s₄ ⟨rfl, closes, fourth⟩
    apply (goes_node fourth.standing).imp
    rintro _ later ⟨rfl, standing', tokens, number⟩
    obtain ⟨parts, rfl, separated, derives, numbered⟩ := sequence.parts
    refine ⟨standing', state.current :: s₁.current :: (taken ++ [s₃.current]), ?_, ?_, ?_⟩
    · rw [tokens, first.tokens, second.tokens, front, fourth.tokens]
      simp
    · exact .call named opens separated derives closes (by rw [place]; rfl)
    · rw [number, fourth.number]
      refine Expr.numbered ?_ rfl
      rw [second.number, first.number] at numbered
      exact numbered
  · intro _
    apply (goes_node first.standing).imp
    rintro _ later ⟨rfl, standing', tokens, number⟩
    refine ⟨standing', [state.current], ?_, .name named place, ?_⟩
    · rw [tokens, first.tokens]
      rfl
    · rw [number]
      exact Expr.numbered (by rw [first.number]; exact Numbered.nil _) rfl

/-- Conditionals. -/
theorem goes_conditional (standing : At whole refusal state) (room : state.tokens.length ≤ bound) :
    Goes state (conditional inner) (Took whole refusal (Written 0) state) := by
  apply (Goes.take stream standing (by decide)).bind
  rintro _ s₁ ⟨rfl, isIf, first⟩
  have fewer₁ := congrArg List.length first.tokens
  rw [length_cons] at fewer₁
  apply (each s₁ first.standing (by omega)).bind
  rintro condition s₂ ⟨⟨second, conditionTokens, front₂, ofCondition, numbered₂⟩, fewer₂⟩
  apply (Goes.take stream second (by decide)).bind
  rintro _ s₃ ⟨rfl, opens, third⟩
  have fewer₃ := congrArg List.length third.tokens
  rw [length_cons] at fewer₃
  apply (each s₃ third.standing (by omega)).bind
  rintro yes s₄ ⟨⟨fourth, yesTokens, front₄, ofYes, numbered₄⟩, fewer₄⟩
  apply (Goes.take stream fourth (by decide)).bind
  rintro _ s₅ ⟨rfl, closes, fifth⟩
  apply (Goes.take stream fifth.standing (by decide)).bind
  rintro _ s₆ ⟨rfl, isElse, sixth⟩
  apply (Goes.take stream sixth.standing (by decide)).bind
  rintro _ s₇ ⟨rfl, opens', seventh⟩
  have fewer₅ := congrArg List.length fifth.tokens
  have fewer₆ := congrArg List.length sixth.tokens
  have fewer₇ := congrArg List.length seventh.tokens
  rw [length_cons] at fewer₅ fewer₆ fewer₇
  apply (each s₇ seventh.standing (by omega)).bind
  rintro no s₈ ⟨⟨eighth, noTokens, front₈, ofNo, numbered₈⟩, -⟩
  apply (Goes.take stream eighth (by decide)).bind
  rintro _ s₉ ⟨rfl, closes', ninth⟩
  apply (goes_node ninth.standing).imp
  rintro _ later ⟨rfl, standing', tokens, number⟩
  refine ⟨standing', state.current :: (conditionTokens ++ s₂.current :: (yesTokens ++
    s₄.current :: s₅.current :: s₆.current :: (noTokens ++ [s₈.current]))), ?_, ?_, ?_⟩
  · rw [tokens, first.tokens, front₂, third.tokens, front₄, fifth.tokens, sixth.tokens,
      seventh.tokens, front₈, ninth.tokens]
    simp
  · exact .conditional isIf ofCondition opens ofYes closes isElse opens' ofNo closes' rfl
  · rw [number, ninth.number]
    refine Expr.numbered ?_ rfl
    rw [first.number] at numbered₂
    rw [third.number] at numbered₄
    rw [seventh.number, sixth.number, fifth.number] at numbered₈
    have all := numbered₂.append (numbered₄.append numbered₈)
    rwa [← numbersOf_append, ← numbersOf_append] at all

/-- Later elements of a tuple, each after a comma, which may be trailing. -/
theorem goes_tupleTail (rounds : Nat) (standing : At whole refusal state)
    (room : state.tokens.length < bound) (enough : state.tokens.length < rounds) :
    Goes state (tupleTail inner rounds) (Took whole refusal (fun tokens first next values =>
      values = [] ∧ tokens = [] ∧ first = next ∨ ∃ comma rest, tokens = comma :: rest ∧
        comma.kind = .comma ∧ Sequence (Written loosest) rest first next values) state) := by
  induction rounds generalizing state with
  | zero => omega
  | succ rounds ih =>
    unfold tupleTail
    refine Goes.accept stream standing (by decide) ?_ ?_
    · intro s₁ isComma first
      have fewer₁ := congrArg List.length first.tokens
      rw [length_cons] at fewer₁
      apply Goes.choice
      · intro _
        refine Goes.pure ⟨first.standing, [state.current], first.tokens, .inr
          ⟨state.current, [], rfl, isComma, ?_⟩⟩
        rw [first.number]
        exact .nil _
      · intro _
        apply (each s₁ first.standing (by omega)).bind
        rintro value s₂ ⟨⟨second, taken, front, written⟩, fewer₂⟩
        apply (ih second (by omega) (by omega)).bind
        rintro values later ⟨standing', taken', front', tail⟩
        rw [first.number] at written
        refine Goes.pure ⟨standing', state.current :: (taken ++ taken'), ?_, .inr
          ⟨state.current, _, rfl, isComma, ?_⟩⟩
        · rw [first.tokens, front, front']
          simp
        · rcases tail with ⟨rfl, rfl, same⟩ | ⟨comma, rest, rfl, isComma', sequence⟩
          · rw [append_nil, ← same]
            exact .last written
          · exact .cons written isComma' sequence
    · intro _
      exact Goes.pure ⟨standing, [], rfl, .inl ⟨rfl, rfl, rfl⟩⟩

/-- Expressions in parentheses and tuples. -/
theorem goes_groupOrTuple (standing : At whole refusal state)
    {fuel : Nat} (room : state.tokens.length ≤ bound) (enough : bound ≤ fuel) :
    Goes state (groupOrTuple inner fuel) (Took whole refusal (Written 0) state) := by
  apply (Goes.take stream standing (by decide)).bind
  rintro _ s₁ ⟨rfl, opens, first⟩
  have fewer₁ := congrArg List.length first.tokens
  rw [length_cons] at fewer₁
  apply (each s₁ first.standing (by omega)).bind
  rintro head s₂ ⟨⟨second, headTokens, front₂, written⟩, fewer₂⟩
  rw [first.number] at written
  refine Goes.accept stream second (by decide) ?_ ?_
  · intro s₃ isComma third
    have fewer₃ := congrArg List.length third.tokens
    rw [length_cons] at fewer₃
    apply (each s₃ third.standing (by omega)).bind
    rintro next s₄ ⟨⟨fourth, nextTokens, front₄, written'⟩, fewer₄⟩
    rw [third.number] at written'
    apply (goes_tupleTail stream each fuel fourth (by omega) (by omega)).bind
    rintro values s₅ ⟨fifth, tailTokens, front₅, tail⟩
    apply (Goes.take stream fifth (by decide)).bind
    rintro _ s₆ ⟨rfl, closes, sixth⟩
    apply (goes_node sixth.standing).imp
    rintro _ later ⟨rfl, standing', tokens, number⟩
    have behind : Sequence (Written loosest) (nextTokens ++ tailTokens) s₂.nextNodeId
        s₅.nextNodeId (next :: values) := by
      rcases tail with ⟨rfl, rfl, same⟩ | ⟨comma, rest, rfl, isComma', sequence⟩
      · rw [append_nil, ← same]
        exact .last written'
      · exact .cons written' isComma' sequence
    obtain ⟨parts, shape, separated, derives, numbered⟩ :=
      (Sequence.cons written isComma behind).parts
    have pair : 2 ≤ parts.length := by
      have lengths := congrArg List.length shape
      simp only [length_cons, length_map] at lengths
      omega
    rw [shape] at numbered ⊢
    refine ⟨standing', state.current :: ((headTokens ++ s₂.current :: (nextTokens ++ tailTokens)) ++
      [s₅.current]), ?_, .tuple opens pair separated derives closes rfl, ?_⟩
    · rw [tokens, first.tokens, front₂, third.tokens, front₄, front₅, sixth.tokens]
      simp
    · rw [number, sixth.number]
      exact Expr.numbered numbered rfl
  · intro _
    apply (Goes.take stream second (by decide)).bind
    rintro _ s₃ ⟨rfl, closes, third⟩
    refine Goes.pure ⟨third.standing, state.current :: (headTokens ++ [s₂.current]), ?_,
      .group opens written.1 closes, ?_⟩
    · rw [first.tokens, front₂, third.tokens]
      simp
    · rw [third.number]
      exact written.2

theorem goes_primary {fuel : Nat}
    (enough : bound ≤ fuel) : WritesLevel whole refusal bound 0 (primary inner fuel) := by
  intro state standing room
  apply Goes.peek
  generalize kind : state.current.kind = current
  cases current
  case question => exact goes_hole stream standing
  case identifier => exact goes_nameOrCall stream each standing room enough
  case trueKw => exact goes_booleanLiteral stream standing kind
  case falseKw => exact goes_booleanLiteral stream standing kind
  case integer => exact goes_integerLiteral stream standing
  case minus => exact goes_negativeLiteral stream standing
  case ifKw => exact goes_conditional stream each standing room
  case leftParen => exact goes_groupOrTuple stream each standing room enough
  all_goals exact Goes.fail

end

omit stream in
/-- An operator binds as loosely as its level, and its token is its own. -/
theorem operatorLevels_looseness {level : Nat} {operators : TokenKind → Option BinaryOp}
    (known : operatorLevels[level]? = some operators) {kind : TokenKind} {op : BinaryOp}
    (found : operators kind = some op) : op.looseness = level + 1 ∧ kind = op.lexeme.1 := by
  match level, known with
  | 0, rfl | 1, rfl | 2, rfl | 3, rfl | 4, rfl => cases kind <;> cases found <;> exact ⟨rfl, rfl⟩

/-- Operators of a level after a left operand. -/
theorem goes_binaryLoop {level room : Nat} {operators : TokenKind → Option BinaryOp}
    (known : operatorLevels[level]? = some operators) {operand : Parser Expr}
    (each : WritesLevel whole refusal room level operand) (rounds : Nat) {begun : ParserState}
    {left : Expr} (took : Took whole refusal (Written (level + 1)) begun left state)
    (enough : state.tokens.length < rounds) (fits : state.tokens.length ≤ room) :
    Goes state (binaryLoop operators operand rounds left)
      (Took whole refusal (Written (level + 1)) begun) := by
  induction rounds generalizing state left with
  | zero => omega
  | succ rounds ih =>
    unfold binaryLoop
    apply Goes.peek
    split
    · exact Goes.pure took
    · rename_i op found
      obtain ⟨strength, isOp⟩ := operatorLevels_looseness known found
      obtain ⟨standing, leftTokens, front, ofLeft, numbered⟩ := took
      apply (Goes.advance stream standing (by rw [isOp]; cases op <;> decide)).bind
      intro _ s₁ first
      have fewer₁ := congrArg List.length first.tokens
      rw [length_cons] at fewer₁
      apply (each s₁ first.standing (by omega)).bind
      intro right s₂ second
      have fewer₂ := second.shorter
      obtain ⟨standing₂, rightTokens, front₂, ofRight, numbered₂⟩ := second
      rw [first.number] at numbered₂
      apply (goes_node standing₂).bind
      rintro _ s₃ ⟨rfl, standing₃, tokens, number⟩
      refine ih ⟨standing₃, leftTokens ++ state.current :: rightTokens, ?_, ?_, ?_⟩ ?_ ?_
      · rw [front, first.tokens, front₂, tokens]
        simp
      · exact .operation strength ofLeft isOp ofRight rfl
      · rw [number]
        refine Expr.numbered ?_ rfl
        have both := numbered.append numbered₂
        rwa [← numbersOf_append] at both
      · rw [tokens]
        omega
      · rw [tokens]
        omega

theorem goes_levels {room fuel : Nat} {operand : Parser Expr}
    (each : WritesLevel whole refusal room 0 operand) (enough : room ≤ fuel) (level : Nat)
    (known : level ≤ operatorLevels.length) :
    WritesLevel whole refusal room level (levels (operatorLevels.take level) operand fuel) := by
  induction level with
  | zero => exact each
  | succ level ih =>
    intro state standing fits
    have inner := ih (by omega)
    have here : operatorLevels[level]? = some operatorLevels[level] := List.getElem?_eq_getElem known
    rw [take_succ_eq_append_getElem known, levels, foldl_append]
    apply (inner state standing fits).bind
    intro left s₁ took
    have fewer := took.shorter
    obtain ⟨standing₁, taken, front, derives, numbered⟩ := took
    exact goes_binaryLoop stream here inner fuel ⟨standing₁, taken, front, .operand derives, numbered⟩
      (by omega) (by omega)

/-- Only what the grammar derives is returned, within the fuel. -/
theorem goes_expr (fuel : Nat) : Writes whole refusal fuel (expr fuel) (Written loosest) := by
  induction fuel with
  | zero =>
    intro state _ room
    omega
  | succ fuel ih =>
    intro state standing room
    have each := goes_levels stream (goes_primary stream ih (Nat.le_refl _)) (Nat.le_refl _) loosest
      (Nat.le_refl _)
    apply (each state standing (by omega)).imp
    intro value later took
    exact ⟨took, took.shorter⟩

end Expressions

/-! ## The language of the parser -/

/-- The lexer hands over a stream. -/
theorem lexFrom_stream (fuel : Nat) (scanner : Scanner) (enough : scanner.rest.length < fuel) :
    Stream (lexFrom fuel scanner).tokens (lexFrom fuel scanner).refusal := by
  induction fuel generalizing scanner with
  | zero => omega
  | succ fuel ih =>
    unfold lexFrom
    cases read : next scanner with
    | error refusal =>
      refine ⟨fun done => (by cases done), ?_⟩
      intro front token later shape
      simp at shape
    | ok found =>
      obtain ⟨token, after⟩ := found
      simp only
      by_cases done : token.kind = .eof
      · rw [if_pos done]
        refine ⟨fun _ => ⟨[], token, rfl, done⟩, ?_⟩
        intro front other later shape _
        have lengths := congrArg List.length shape
        simp only [length_cons, length_nil, length_append] at lengths
        exact length_eq_zero_iff.mp (by omega)
      · rw [if_neg done]
        have shorter := next_shorter read done
        obtain ⟨ends, last⟩ := ih after (by omega)
        refine ⟨?_, ?_⟩
        · intro none
          obtain ⟨front, final, shape, kind⟩ := ends none
          exact ⟨token :: front, final, by rw [shape]; rfl, kind⟩
        · intro front other later shape kind
          cases front with
          | nil =>
            obtain ⟨rfl, -⟩ := List.cons.inj shape
            exact absurd kind done
          | cons first front => exact last front other later (List.cons.inj shape).2 kind

theorem lex_stream (source : SourceText) : Stream (lex source).tokens (lex source).refusal :=
  lexFrom_stream _ _ (Nat.lt_succ_self _)

theorem Goes.takeEnd {whole : List Token} {refusal : Option ParseError} {state : ParserState}
    (stream : Stream whole refusal) (standing : At whole refusal state) (context : String) :
    Goes state (Syntax.take .eof context) fun _ _ =>
      state.current.kind = .eof ∧ state.tokens = [state.current] ∧ refusal = none := by
  unfold Syntax.take
  apply Goes.get
  by_cases here : state.current.kind = .eof
  · rw [if_pos here]
    obtain ⟨current, rest, refused, number⟩ := state
    obtain ⟨⟨front, suffix⟩, same⟩ := standing
    obtain rfl := stream.last front current rest suffix.symm here
    subst same
    cases refused with
    | none => exact ⟨here, rfl, rfl⟩
    | some refusal => trivial
  · rw [if_neg here]
    exact Goes.fail

/-- A parser followed from the first token refuses or returns as it should. -/
theorem parseWith_goes {parser : Nat → Parser α} {source : SourceText}
    (follows : ∀ state : ParserState, state.tokens = (lex source).tokens →
      state.refusal = (lex source).refusal → state.nextNodeId = 0 →
        Goes state (parser (state.rest.length + 2)) good) :
    (∃ value later, parseWith parser source = .ok value ∧ good value later) ∨
      ∃ refusal, parseWith parser source = .error (.parse refusal) := by
  unfold parseWith start
  split
  · rename_i first rest refusal lexed
    have goes := follows ⟨first, rest, refusal, 0⟩ (by rw [lexed]; rfl) (by rw [lexed]) rfl
    unfold Goes at goes
    split at goes
    · rename_i value later run
      exact .inl ⟨value, later, by simp only [bind, Except.bind, run]; rfl, goes⟩
    · rename_i refused run
      exact .inr ⟨refused, by simp only [bind, Except.bind, run]⟩
    · exact goes.elim
  · exact .inr ⟨_, rfl⟩
  · rename_i lexed
    have ends := (lex_stream source).ends (by rw [lexed])
    obtain ⟨front, last, shape, -⟩ := ends
    rw [lexed] at shape
    simp at shape

/-- The tokens of a source before the end of the file. -/
def TokensOf (source : SourceText) (tokens : List Token) : Prop :=
  ∃ last : Token, last.kind = .eof ∧ lex source = ⟨tokens ++ [last], none⟩

theorem parseExpression_derives (source : SourceText) :
    (∃ found tokens, parseExpression source = .ok found ∧ TokensOf source tokens ∧
      Derives NodeInfo.Exact loosest tokens found) ∨
      ∃ refusal, parseExpression source = .error (.parse refusal) := by
  have stream := lex_stream source
  have parsed := @parseWith_goes Expr (fun found _ => ∃ tokens, TokensOf source tokens ∧
    Derives NodeInfo.Exact loosest tokens found) expressionDocument source ?_
  · rcases parsed with ⟨found, _, parsed, tokens, known, derives⟩ | refused
    · exact .inl ⟨found, tokens, parsed, known, derives⟩
    · exact .inr refused
  · intro state all refused _
    have standing : At (lex source).tokens (lex source).refusal state :=
      ⟨all ▸ suffix_refl _, refused⟩
    apply (goes_expr stream _ state standing (by simp [ParserState.tokens])).bind
    rintro found later ⟨⟨standing', taken, front, derives, -⟩, -⟩
    apply (Goes.takeEnd stream standing' "after the expression").bind
    rintro _ _ ⟨last, behind, complete⟩
    refine Goes.pure ⟨taken, ⟨later.current, last, ?_⟩, derives⟩
    rw [← complete, ← behind, ← front, all]

/-- A source is parsed when its lexemes are read. -/
theorem parseExpression_of_reads {source : SourceText} {lexemes : List Lexeme} {last : Lexeme}
    {good : Expr → Prop} (lexed : (lex source).lexemes = lexemes ++ [last])
    (isLast : last.1 = .eof) (complete : (lex source).refusal = none)
    (reads : ∀ fuel, lexemes.length + 1 < fuel → Reads (expr fuel) lexemes [last] good) :
    ∃ found, parseExpression source = .ok found ∧ good found := by
  cases tokens : (lex source).tokens with
  | nil =>
    rw [Tokens.lexemes, tokens] at lexed
    simp at lexed
  | cons first later =>
    have begun : start source = .ok ⟨first, later, none, 0⟩ := by
      have shape : lex source = ⟨first :: later, none⟩ := by rw [← tokens, ← complete]
      rw [start, shape]
    rw [Tokens.lexemes, tokens] at lexed
    have count := congrArg List.length lexed
    simp only [length_map, length_cons, length_append, length_nil] at count
    obtain ⟨found, final, run, holds, behind⟩ := reads (later.length + 2) (by omega)
      ⟨first, later, none, 0⟩ lexed
    -- What stops the lexer stays as it was, so the last token is followed by itself.
    have goes := goes_expr (lex_stream source) (later.length + 2) ⟨first, later, none, 0⟩
      ⟨by rw [tokens]; exact suffix_refl _, complete.symm⟩ (by simp [ParserState.tokens])
    unfold Goes at goes
    rw [run] at goes
    have refused : final.refusal = none := goes.1.1.refused.trans complete
    obtain ⟨current, rest, refusal, number⟩ := final
    simp only [ParserState.lexemes, map_cons, List.cons.injEq, map_eq_nil_iff] at behind
    obtain ⟨isCurrent, rfl⟩ := behind
    obtain rfl : refusal = none := refused
    have kind : current.kind = .eof := (congrArg Prod.fst isCurrent).trans isLast
    refine ⟨found, ?_, holds⟩
    have finished : (expressionDocument (later.length + 2)).run ⟨first, later, none, 0⟩ =
        .ok (found, ⟨current, [], none, number⟩) := by
      refine (run_bind_of_ok run).trans ?_
      unfold take
      rw [StateT.run_bind, run_get_bind, if_pos kind]
      rfl
    simp only [parseExpression, parseWith, begun, bind, Except.bind]
    rw [finished]
    rfl

theorem parseExpression_of_derives {source : SourceText} {tokens : List Token}
    (known : TokensOf source tokens) (derives : DerivesExpression tokens expression) :
    ∃ found, parseExpression source = .ok found ∧ found.strip = expression.strip := by
  obtain ⟨last, isLast, lexed⟩ := known
  have lexemes : (lex source).lexemes = lexemesOf tokens ++ [last.lexeme] := by
    rw [lexed]
    simp [Tokens.lexemes, lexemesOf]
  refine parseExpression_of_reads lexemes isLast (by rw [lexed]) ?_
  intro fuel enough
  rw [length_lexemesOf] at enough
  have front : headKind [last.lexeme] = some .eof := congrArg some isLast
  refine derives.read.1.expr front rfl ?_
  simpa using enough

/-- Derived without places and numbers of nodes. -/
theorem Derives.stripped {level : Nat} {tokens : List Token}
    (derives : Derives (fun _ _ => True) level tokens expression) :
    Derives (fun _ _ => True) level tokens expression.strip := by
  have parts : ∀ parts : List (List Token × Expr),
      (parts.map fun part => (part.1, part.2.strip)).map Prod.fst = parts.map Prod.fst ∧
      (parts.map fun part => (part.1, part.2.strip)).map Prod.snd =
        (parts.map Prod.snd).map Expr.strip := fun parts => by
    simp [Function.comp_def]
  induction derives with
  | hole isMark named => exact .hole isMark named trivial
  | name named => exact .name named trivial
  | @call word open_ close name info tokens arguments named opens separated each closes _ ih =>
    rw [Expr.strip, Expr.stripAll_eq_map, ← (parts arguments).2]
    refine .call named opens (by rw [(parts arguments).1]; exact separated) ?_ closes trivial
    exact forall_mem_map.mpr ih
  | boolean isValue => exact .boolean isValue trivial
  | integer isInteger unsigned same => exact .integer isInteger unsigned same trivial
  | negative isSign isInteger signed same => exact .negative isSign isInteger signed same trivial
  | conditional isIf _ opens _ closes isElse opens' _ closes' _ condition yes no =>
    exact .conditional isIf condition opens yes closes isElse opens' no closes' trivial
  | group opens _ closes inner => exact .group opens inner closes
  | @tuple open_ close info tokens elements opens pair separated each closes _ ih =>
    rw [Expr.strip, Expr.stripAll_eq_map, ← (parts elements).2]
    refine .tuple opens (by simpa using pair) (by rw [(parts elements).1]; exact separated) ?_ closes
      trivial
    exact forall_mem_map.mpr ih
  | operand _ inner => exact .operand inner
  | operation strength _ isOp _ _ left right => exact .operation strength left isOp right trivial

theorem derivesExpression_unique {tokens : List Token} {other : Expr}
    (derives : DerivesExpression tokens expression) (derives' : DerivesExpression tokens other) :
    expression.strip = other.strip := by
  have reads : ∀ {tree}, DerivesExpression tokens tree → Reads (expr (tokens.length + 2))
      (lexemesOf tokens) [noToken.lexeme] fun found => found.strip = tree.strip := fun derives =>
    derives.read.1.expr (show headKind [noToken.lexeme] = some .eof from rfl) rfl (by simp)
  obtain ⟨first, later, rfl, -⟩ := derives.head
  have here : (⟨first, later ++ [noToken], none, 0⟩ : ParserState).lexemes =
      lexemesOf (first :: later) ++ [noToken.lexeme] := by
    simp [ParserState.lexemes, lexemesOf]
  obtain ⟨found, _, run, holds, -⟩ := reads derives _ here
  obtain ⟨found', _, run', holds', -⟩ := reads derives' _ here
  rw [run] at run'
  cases run'
  exact holds.symm.trans holds'

/-- The expression parser accepts exactly its grammar: it returns a tree, up to places and numbers
of nodes, when the tokens of the source derive it; tokens derive one tree at most; and every other
source is refused by a parse error. -/
theorem parseExpression_grammar (source : SourceText) :
    (∀ tree : Expr, (∃ found, parseExpression source = .ok found ∧ found.strip = tree.strip) ↔
      ∃ tokens, TokensOf source tokens ∧ DerivesExpression tokens tree.strip) ∧
    (∀ tokens tree other, DerivesExpression tokens tree → DerivesExpression tokens other →
      tree.strip = other.strip) ∧
    ((∃ tokens tree, TokensOf source tokens ∧ DerivesExpression tokens tree) ∨
      ∃ refusal, parseExpression source = .error (.parse refusal)) := by
  refine ⟨?_, fun _ _ _ => derivesExpression_unique, ?_⟩
  · intro tree
    constructor
    · rintro ⟨found, parsed, same⟩
      rcases parseExpression_derives source with ⟨other, tokens, parsed', known, derives⟩ | refused
      · rw [parsed] at parsed'
        cases parsed'
        rw [← same]
        exact ⟨tokens, known, (derives.imp fun _ _ _ => trivial).stripped⟩
      · obtain ⟨refusal, refused⟩ := refused
        rw [parsed] at refused
        cases refused
    · rintro ⟨tokens, known, derives⟩
      obtain ⟨found, parsed, same⟩ := parseExpression_of_derives known derives
      exact ⟨found, parsed, same.trans (Expr.strip_strip tree)⟩
  · rcases parseExpression_derives source with ⟨found, tokens, -, known, derives⟩ | refused
    · exact .inl ⟨tokens, found, known, derives.imp fun _ _ _ => trivial⟩
    · exact .inr refused

theorem ReadsBack.parses (back : ReadsBack expression) :
    ∃ found, parseExpression (printExpression expression) = .ok found ∧
      found.strip = expression.strip := by
  have lexes := printExpression_lexes expression [] (Scan.stops_nil _)
  rw [append_nil] at lexes
  obtain ⟨lexed, complete⟩ := lex_of_lexes lexes rfl
  refine parseExpression_of_reads lexed rfl complete ?_
  intro fuel enough
  refine back.expr rfl (by decide) ?_
  simpa using enough

/-- A printed expression is parsed back, up to places and numbers of nodes. -/
theorem parseExpression_printExpression (expression : Expr)
    (readable : expression.readable = true) :
    ∃ found, parseExpression (printExpression expression) = .ok found ∧
      found.strip = expression.strip := (readsBack expression readable).parses

/-- A conditional with a tuple, a call, a hole and a literal. -/
def printedSample : Expr :=
  .conditional {} (.binary {} .logicalAnd (.name {} ⟨"a", by decide⟩) (.boolean {} true))
    (.tuple {} [.integer {} ⟨true, ['7'], by decide⟩, .hole {} ⟨"h", by decide⟩])
    (.call {} ⟨"f", by decide⟩ [.binary {} .subtract (.name {} ⟨"b", by decide⟩)
      (.integer {} ⟨false, ['1'], by decide⟩)])

/-- The sample is printed and read back. -/
theorem parseExpression_printExpression_sample :
    ∃ found, parseExpression (printExpression printedSample) = .ok found ∧
      found.strip = printedSample.strip :=
  parseExpression_printExpression printedSample rfl

/-- What is derived is readable: no tuple has fewer than two elements. -/
theorem Derives.readable {places : NodeInfo → SourceSpan → Prop} {level : Nat}
    {tokens : List Token} (derives : Derives places level tokens expression) :
    expression.readable = true := by
  induction derives with
  | hole | name | boolean | integer | negative => rfl
  | call _ _ _ _ _ _ ih => simpa [Expr.readable] using fun tree tokens => ih (tokens, tree)
  | conditional _ _ _ _ _ _ _ _ _ _ condition yes no => simp [Expr.readable, condition, yes, no]
  | group _ _ _ inner => exact inner
  | tuple _ pair _ _ _ _ ih =>
    simpa [Expr.readable, pair] using fun tree tokens => ih (tokens, tree)
  | operand _ inner => exact inner
  | operation _ _ _ _ _ left right => simp [Expr.readable, left, right]

/-- Places and numbers of nodes are not printed. -/
theorem printExpression_strip (expression : Expr) :
    printExpression expression.strip = printExpression expression := by
  have later : ∀ elements : List Expr,
      (∀ element ∈ elements, printExpression element.strip = printExpression element) →
      printLater (elements.map Expr.strip) = printLater elements := by
    intro elements each
    induction elements with
    | nil => rfl
    | cons element elements ih =>
      simp only [forall_mem_cons] at each
      simp only [map_cons, printLater, each.1, ih each.2]
  have all : ∀ elements : List Expr,
      (∀ element ∈ elements, printExpression element.strip = printExpression element) →
      printElements (elements.map Expr.strip) = printElements elements := by
    intro elements each
    cases elements with
    | nil => rfl
    | cons element elements =>
      simp only [forall_mem_cons] at each
      simp only [map_cons, printElements, each.1, later elements each.2]
  induction expression with
  | name | boolean | integer | hole => rfl
  | tuple info elements ih | call info name elements ih =>
    simp only [Expr.strip, Expr.stripAll_eq_map, printExpression, all elements ih]
  | binary info op left right leftIh rightIh =>
    simp only [Expr.strip, printExpression, leftIh, rightIh]
  | conditional info condition yes no conditionIh yesIh noIh =>
    simp only [Expr.strip, printExpression, conditionIh, yesIh, noIh]

/-- Printing is a normal form: the printed tree of an accepted source is accepted as the same tree,
and prints as the same text again. -/
theorem printExpression_normal {source : SourceText} {tree : Expr}
    (parsed : parseExpression source = .ok tree) :
    ∃ found, parseExpression (printExpression tree) = .ok found ∧ found.strip = tree.strip ∧
      printExpression found = printExpression tree := by
  rcases parseExpression_derives source with ⟨other, tokens, parsed', -, derives⟩ | refused
  · rw [parsed] at parsed'
    cases parsed'
    obtain ⟨found, again, same⟩ := (readsBack tree derives.readable).parses
    refine ⟨found, again, same, ?_⟩
    rw [← printExpression_strip found, same, printExpression_strip]
  · obtain ⟨refusal, refused⟩ := refused
    rw [parsed] at refused
    cases refused

/-- A sum with an operand in parentheses is printed in its normal form. -/
theorem printExpression_normal_sum : ∃ tree found, parseExpression "a  +(1)".toList = .ok tree ∧
    printExpression tree = "(a + 1)".toList ∧
    parseExpression (printExpression tree) = .ok found ∧ found.strip = tree.strip ∧
      printExpression found = printExpression tree := by
  have printed : (parseExpression "a  +(1)".toList).toOption.map printExpression =
    some "(a + 1)".toList := by decide +kernel
  cases parsed : parseExpression "a  +(1)".toList with
  | error refusal =>
    rw [parsed] at printed
    cases printed
  | ok tree =>
    rw [parsed] at printed
    obtain ⟨found, again⟩ := printExpression_normal parsed
    exact ⟨tree, found, rfl, Option.some.inj printed, again⟩

end Fine.Syntax
