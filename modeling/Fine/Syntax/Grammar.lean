import Fine.Syntax.Reading

/-!
# Grammar of expressions

Five levels of binary operators that associate to the left, over primaries. A parameter of a
derivation says what nodes remember of their place. The parser reads whatever is derived, so tokens
have one tree at most.
-/

namespace Fine.Syntax

open Fine.Fallible List

variable {α : Type}

/-! ## Derivations -/

/-- Parts with commas between, and perhaps one behind. -/
inductive Separated : List (List Token) → List Token → Prop where
  | nil : Separated [] []
  /-- One part without a comma behind it. -/
  | last (part : List Token) : Separated [part] part
  | cons {comma : Token} {parts : List (List Token)} {tokens : List Token} (part : List Token)
      (isComma : comma.kind = .comma) (rest : Separated parts tokens) :
      Separated (part :: parts) (part ++ comma :: tokens)

def BinaryOp.looseness : BinaryOp → Nat
  | .add => 1
  | .subtract => 1
  | .greaterEqual => 2
  | .lessEqual => 2
  | .equal => 3
  | .logicalAnd => 4
  | .logicalOr => 5

def loosest : Nat := 5

/-- The keyword of a Boolean. -/
def booleanKind (value : Bool) : TokenKind := if value then .trueKw else .falseKw

/-- Primaries at level zero, at higher ones operations, to the left of one level. -/
inductive Derives (places : NodeInfo → SourceSpan → Prop) : Nat → List Token → Expr → Prop where
  | hole {mark word : Token} {name : Identifier} {info : NodeInfo} (isMark : mark.kind = .question)
      (named : word.lexeme = name.lexeme) (placed : places info (joined mark.span word.span)) :
      Derives places 0 [mark, word] (.hole info name)
  | name {word : Token} {name : Identifier} {info : NodeInfo} (named : word.lexeme = name.lexeme)
      (placed : places info word.span) : Derives places 0 [word] (.name info name)
  | call {word open_ close : Token} {name : Identifier} {info : NodeInfo} {tokens : List Token}
      {arguments : List (List Token × Expr)} (named : word.lexeme = name.lexeme)
      (opens : open_.kind = .leftParen) (separated : Separated (arguments.map Prod.fst) tokens)
      (each : ∀ argument ∈ arguments, Derives places loosest argument.1 argument.2)
      (closes : close.kind = .rightParen) (placed : places info (joined word.span close.span)) :
      Derives places 0 (word :: open_ :: (tokens ++ [close]))
        (.call info name (arguments.map Prod.snd))
  | boolean {word : Token} {value : Bool} {info : NodeInfo} (isValue : word.kind = booleanKind value)
      (placed : places info word.span) : Derives places 0 [word] (.boolean info value)
  | integer {digits : Token} {literal : IntegerText} {info : NodeInfo}
      (isInteger : digits.kind = .integer) (unsigned : literal.negative = false)
      (same : literal.digits = digits.text) (placed : places info digits.span) :
      Derives places 0 [digits] (.integer info literal)
  | negative {sign digits : Token} {literal : IntegerText} {info : NodeInfo}
      (isSign : sign.kind = .minus) (isInteger : digits.kind = .integer)
      (signed : literal.negative = true) (same : literal.digits = digits.text)
      (placed : places info (joined sign.span digits.span)) :
      Derives places 0 [sign, digits] (.integer info literal)
  | conditional {if_ open_ close else_ open' close' : Token} {info : NodeInfo}
      {conditionTokens yesTokens noTokens : List Token} {condition yes no : Expr}
      (isIf : if_.kind = .ifKw) (ofCondition : Derives places loosest conditionTokens condition)
      (opens : open_.kind = .leftBrace) (ofYes : Derives places loosest yesTokens yes)
      (closes : close.kind = .rightBrace) (isElse : else_.kind = .elseKw)
      (opens' : open'.kind = .leftBrace) (ofNo : Derives places loosest noTokens no)
      (closes' : close'.kind = .rightBrace) (placed : places info (joined if_.span close'.span)) :
      Derives places 0 (if_ :: (conditionTokens ++ open_ :: (yesTokens ++ close :: else_ :: open' ::
        (noTokens ++ [close'])))) (.conditional info condition yes no)
  /-- An expression in parentheses, which leave no node. -/
  | group {open_ close : Token} {tokens : List Token} {expression : Expr}
      (opens : open_.kind = .leftParen) (inner : Derives places loosest tokens expression)
      (closes : close.kind = .rightParen) :
      Derives places 0 (open_ :: (tokens ++ [close])) expression
  /-- A tuple of two elements or more. -/
  | tuple {open_ close : Token} {info : NodeInfo} {tokens : List Token}
      {elements : List (List Token × Expr)} (opens : open_.kind = .leftParen)
      (pair : 2 ≤ elements.length) (separated : Separated (elements.map Prod.fst) tokens)
      (each : ∀ element ∈ elements, Derives places loosest element.1 element.2)
      (closes : close.kind = .rightParen) (placed : places info (joined open_.span close.span)) :
      Derives places 0 (open_ :: (tokens ++ [close])) (.tuple info (elements.map Prod.snd))
  | operand {level : Nat} {tokens : List Token} {expression : Expr}
      (inner : Derives places level tokens expression) :
      Derives places (level + 1) tokens expression
  /-- An operation of a level, whose right operand is of the tighter level. -/
  | operation {level : Nat} {leftTokens rightTokens : List Token} {token : Token} {op : BinaryOp}
      {left right : Expr} {info : NodeInfo} (strength : op.looseness = level + 1)
      (ofLeft : Derives places (level + 1) leftTokens left) (isOp : token.kind = op.lexeme.1)
      (ofRight : Derives places level rightTokens right)
      (placed : places info (joined left.span right.span)) :
      Derives places (level + 1) (leftTokens ++ token :: rightTokens) (.binary info op left right)

/-- Tokens derive a tree, whatever the places and numbers of its nodes. -/
def DerivesExpression (tokens : List Token) (expression : Expr) : Prop :=
  Derives (fun _ _ => True) loosest tokens expression

/-- A node remembers exactly the span of its tokens. -/
def NodeInfo.Exact (info : NodeInfo) (span : SourceSpan) : Prop := info.span = span

variable {places : NodeInfo → SourceSpan → Prop} {level : Nat} {tokens : List Token}
  {expression : Expr}

theorem Derives.ne_nil (derives : Derives places level tokens expression) : tokens ≠ [] := by
  induction derives with
  | operand _ inner => exact inner
  | operation => simp
  | _ => simp

theorem Derives.imp {weaker : NodeInfo → SourceSpan → Prop}
    (less : ∀ info span, places info span → weaker info span)
    (derives : Derives places level tokens expression) :
    Derives weaker level tokens expression := by
  induction derives with
  | hole isMark named placed => exact .hole isMark named (less _ _ placed)
  | name named placed => exact .name named (less _ _ placed)
  | call named opens separated each closes placed ih =>
    exact .call named opens separated ih closes (less _ _ placed)
  | boolean isValue placed => exact .boolean isValue (less _ _ placed)
  | integer isInteger unsigned same placed =>
    exact .integer isInteger unsigned same (less _ _ placed)
  | negative isSign isInteger signed same placed =>
    exact .negative isSign isInteger signed same (less _ _ placed)
  | conditional isIf _ opens _ closes isElse opens' _ closes' placed condition yes no =>
    exact .conditional isIf condition opens yes closes isElse opens' no closes' (less _ _ placed)
  | group opens _ closes inner => exact .group opens inner closes
  | tuple opens pair separated each closes placed ih =>
    exact .tuple opens pair separated ih closes (less _ _ placed)
  | operand _ inner => exact .operand inner
  | operation strength _ isOp _ placed left right =>
    exact .operation strength left isOp right (less _ _ placed)

/-! ## The parser reads what is derived -/

/-- Lexemes of some tokens. -/
def lexemesOf (tokens : List Token) : List Lexeme := tokens.map Token.lexeme

@[simp] theorem lexemesOf_nil : lexemesOf [] = [] := rfl

@[simp] theorem lexemesOf_cons (token : Token) (tokens : List Token) :
    lexemesOf (token :: tokens) = token.lexeme :: lexemesOf tokens := rfl

@[simp] theorem lexemesOf_append (first second : List Token) :
    lexemesOf (first ++ second) = lexemesOf first ++ lexemesOf second := map_append

@[simp] theorem length_lexemesOf (tokens : List Token) :
    (lexemesOf tokens).length = tokens.length := length_map _

/-- The parser of a level. -/
def levelParser (fuel level : Nat) : Parser Expr :=
  levels (operatorLevels.take level) (primary (expr fuel) fuel) fuel

theorem expr_succ (fuel : Nat) : expr (fuel + 1) = levelParser fuel loosest := rfl

theorem levelParser_succ {operators : TokenKind → Option BinaryOp}
    (known : operatorLevels[level]? = some operators) (fuel : Nat) :
    levelParser fuel (level + 1) = binaryLevel operators (levelParser fuel level) fuel := by
  rw [levelParser, take_add_one, known, levels, foldl_append]
  rfl

/-- The kind opens no call and no operator of a tighter level. -/
def Outside (level : Nat) (kind : TokenKind) : Prop :=
  kind ≠ .leftParen ∧ ∀ operators ∈ operatorLevels.take level, operators kind = none

variable {kind : TokenKind} {left right : Expr} {rest : List Lexeme} {name : Identifier}
  {part : List Token × Expr} {parts : List (List Token × Expr)} {open_ close : Token}

theorem outside_of_ends (ends : endsExpression kind = true) :
    Outside loosest kind := endsExpression_outside ends

theorem BinaryOp.outside (op : BinaryOp) : Outside (op.looseness - 1) op.lexeme.1 := by
  cases op <;> refine ⟨by decide, ?_⟩ <;>
    simp [looseness, operatorLevels, lexeme, additiveOperators, relationalOperators,
      equalityOperators, logicalAndOperators]

theorem BinaryOp.known (op : BinaryOp) : ∃ operators,
    operatorLevels[op.looseness - 1]? = some operators ∧ operators op.lexeme.1 = some op := by
  cases op <;> exact ⟨_, rfl, rfl⟩

/-- The level's parser reads the tree before any rest that is outside of the level. -/
def ReadAt (level : Nat) (tokens : List Token) (expression : Expr) : Prop :=
  ∀ fuel rest kind, headKind rest = some kind → Outside level kind →
    tokens.length + rest.length ≤ fuel →
      Reads (levelParser fuel level) (lexemesOf tokens) rest
        fun found => found.strip = expression.strip

/-- The parser arrives with the tree, and goes on with the level's operators. -/
def ArrivesAt (level : Nat) (tokens : List Token) (expression : Expr) : Prop :=
  ∀ fuel rest kind operators, headKind rest = some kind → Outside level kind →
    operatorLevels[level]? = some operators → tokens.length + rest.length ≤ fuel →
      ∀ state : ParserState, state.lexemes = lexemesOf tokens ++ rest →
        ∃ found later rounds, found.strip = expression.strip ∧ later.lexemes = rest ∧
          rest.length < rounds ∧ (levelParser fuel (level + 1)).run state =
            (binaryLoop operators (levelParser fuel level) rounds found).run later

theorem ReadAt.arrives (some : tokens ≠ []) (reads : ReadAt level tokens expression) :
    ArrivesAt level tokens expression := by
  intro fuel rest kind operators head outside known enough state here
  obtain ⟨found, later, run, holds, there⟩ := reads fuel rest kind head outside enough state here
  have positive := length_pos_iff.mpr some
  refine ⟨found, later, fuel, holds, there, by omega, ?_⟩
  rw [levelParser_succ known]
  exact run_bind_of_ok run

theorem ArrivesAt.read (bounded : level < operatorLevels.length)
    (arrives : ArrivesAt level tokens expression) : ReadAt (level + 1) tokens expression := by
  intro fuel rest kind head outside enough state here
  have known : operatorLevels[level]? = some operatorLevels[level] :=
    List.getElem?_eq_getElem bounded
  have tighter : Outside level kind := ⟨outside.1, fun operators member =>
    outside.2 operators ((take_prefix_take_left (Nat.le_succ level)).subset member)⟩
  have none : operatorLevels[level] kind = none := outside.2 _ (by
    rw [take_succ_eq_append_getElem bounded]
    exact mem_append_right _ (mem_singleton_self _))
  obtain ⟨found, later, rounds, holds, there, turns, run⟩ :=
    arrives fuel rest kind _ head tighter known enough state here
  obtain ⟨rounds, rfl⟩ : ∃ n, rounds = n + 1 := ⟨rounds - 1, by omega⟩
  have stop : Reads (binaryLoop operatorLevels[level] (levelParser fuel level) (rounds + 1) found) []
      rest fun value => value = found := by
    refine Reads.peek (show ([] ++ rest).head?.map Prod.fst = some kind from head) ?_
    rw [none]
    exact reads_pure rfl
  obtain ⟨value, final, run', rfl, there'⟩ := stop later there
  exact ⟨value, final, run.trans run', holds, there'⟩

/-- An operation is arrived at behind its right operand. -/
theorem arrivesAt_operation {op : BinaryOp} (strength : op.looseness = level + 1)
    {leftTokens rightTokens : List Token} {token : Token} (ofLeft : ArrivesAt level leftTokens left)
    (isOp : token.kind = op.lexeme.1) (ofRight : ReadAt level rightTokens right) (info : NodeInfo) :
    ArrivesAt level (leftTokens ++ token :: rightTokens) (.binary info op left right) := by
  intro fuel rest kind operators head outside known enough state here
  simp only [length_append, length_cons] at enough
  obtain ⟨own, known', inside⟩ := op.known
  have before := op.outside
  rw [strength, Nat.add_sub_cancel] at known' before
  obtain rfl : own = operators := Option.some.inj (known'.symm.trans known)
  have shape : lexemesOf (leftTokens ++ token :: rightTokens) ++ rest =
      lexemesOf leftTokens ++ (token.lexeme :: (lexemesOf rightTokens ++ rest)) := by simp
  obtain ⟨found, later, rounds, holds, there, turns, run⟩ := ofLeft fuel
    (token.lexeme :: (lexemesOf rightTokens ++ rest)) token.kind own rfl (by rw [isOp]; exact before)
    known (by simp only [length_cons, length_append, length_lexemesOf]; omega) state
    (here.trans shape)
  simp only [length_cons, length_append, length_lexemesOf] at turns
  obtain ⟨rounds, rfl⟩ : ∃ n, rounds = n + 1 := ⟨rounds - 1, by omega⟩
  have more : lexemesOf rightTokens ++ rest ≠ [] := by simp [ne_nil_of_headKind head]
  -- One turn of the loop: the operator, the right operand and the node.
  obtain ⟨middle, moved, there₁⟩ := advance_run there more
  obtain ⟨value, final, run₂, holds₂, there₂⟩ := ofRight fuel rest kind head outside (by omega)
    middle there₁
  have current : later.current.kind = op.lexeme.1 := by
    rw [← isOp]
    exact congrArg Prod.fst (later.current_lexeme there)
  refine ⟨.binary ⟨joined found.span value.span, final.nextNodeId⟩ op found value,
    { final with nextNodeId := final.nextNodeId + 1 }, rounds, ?_, there₂, by omega, ?_⟩
  · simp only [Expr.strip, holds, holds₂]
  · rw [run]
    have kind_eq : currentKind.run later = .ok (op.lexeme.1, later) := by
      rw [← current]
      rfl
    rw [binaryLoop, run_bind_of_ok kind_eq, inside]
    exact (run_bind_of_ok moved).trans (run_bind_of_ok run₂)

theorem ReadAt.expr (reads : ReadAt loosest tokens expression) {fuel : Nat}
    (head : headKind rest = some kind) (ends : endsExpression kind = true)
    (enough : tokens.length + rest.length < fuel) :
    Reads (expr fuel) (lexemesOf tokens) rest fun found => found.strip = expression.strip := by
  obtain ⟨fuel, rfl⟩ : ∃ n, fuel = n + 1 := ⟨fuel - 1, by omega⟩
  rw [expr_succ]
  exact reads fuel rest kind head (outside_of_ends ends) (by omega)

theorem Token.kind_of_named {token : Token} (named : token.lexeme = name.lexeme) :
    token.kind = .identifier := congrArg Prod.fst named

theorem Token.lexeme_of_kind {token : Token} (known : token.kind = kind) :
    token.lexeme = (kind, token.text) := by
  rw [← known]
  rfl

theorem Derives.head (derives : Derives places level tokens expression) :
    ∃ first later, tokens = first :: later ∧ startsExpression first.kind = true := by
  induction derives with
  | hole isMark => exact ⟨_, _, rfl, by rw [isMark]; rfl⟩
  | name named | call named => exact ⟨_, _, rfl, by rw [Token.kind_of_named named]; rfl⟩
  | @boolean word value info isValue => exact ⟨_, _, rfl, by rw [isValue]; cases value <;> rfl⟩
  | integer isInteger => exact ⟨_, _, rfl, by rw [isInteger]; rfl⟩
  | negative isSign => exact ⟨_, _, rfl, by rw [isSign]; rfl⟩
  | conditional isIf => exact ⟨_, _, rfl, by rw [isIf]; rfl⟩
  | group opens | tuple opens => exact ⟨_, _, rfl, by rw [opens]; rfl⟩
  | operand _ ih => exact ih
  | operation _ _ _ _ _ left _ =>
    obtain ⟨first, later, rfl, starts⟩ := left
    exact ⟨first, _, rfl, starts⟩

/-- It begins like an expression and is read as its tree. -/
def ReadPart (part : List Token × Expr) : Prop :=
  (∃ first later, part.1 = first :: later ∧ startsExpression first.kind = true) ∧
    ReadAt loosest part.1 part.2

theorem ReadPart.opening (read : ReadPart part) (rest : List Lexeme) :
    ∃ kind, headKind (lexemesOf part.1 ++ rest) = some kind ∧ kind ≠ .rightParen := by
  obtain ⟨⟨first, later, shape, starts⟩, -⟩ := read
  refine ⟨first.kind, by rw [shape]; rfl, ?_⟩
  intro close
  rw [close] at starts
  cases starts

/-- Parts with commas are read up to the parenthesis. -/
theorem reads_separated (message : String) (fuel : Nat)
    (separated : Separated (parts.map Prod.fst) tokens) (each : ∀ part ∈ parts, ReadPart part)
    (rounds : Nat) (close : headKind rest = some .rightParen)
    (enough : tokens.length + rest.length < fuel) (turns : tokens.length + rest.length < rounds) :
    Reads (separatedItems .rightParen message (expr fuel) rounds) (lexemesOf tokens) rest
      fun found => found.map Expr.strip = parts.map fun part => part.2.strip := by
  induction parts generalizing tokens rounds with
  | nil =>
    cases separated
    exact (separatedItems_nil close (by omega)).imp (by rintro _ rfl; rfl)
  | cons part parts ih =>
    obtain ⟨rounds, rfl⟩ : ∃ n, rounds = n + 1 := ⟨rounds - 1, by omega⟩
    have back := each part mem_cons_self
    have others := fun other member => each other (mem_cons_of_mem part member)
    generalize shape : (part :: parts).map Prod.fst = lists at separated
    cases separated with
    | nil => cases shape
    | last only =>
      obtain ⟨rfl, none⟩ := List.cons.inj shape
      obtain rfl := map_eq_nil_iff.mp none
      obtain ⟨kind, first, opening⟩ := back.opening ([] ++ [] ++ rest)
      have item := back.2.expr close (by decide) enough
      have stop : Reads (separatedItems .rightParen message (expr fuel) rounds) [] rest
          fun found => found = [] := by
        have positive := length_pos_iff.mpr (ne_nil_of_headKind close)
        obtain ⟨⟨first, later, front, -⟩, -⟩ := back
        have nonempty := congrArg List.length front
        rw [length_cons] at nonempty
        exact separatedItems_nil close (by omega)
      have all := separatedItems_cons first opening item (reads_separator_close close (by decide)) stop
      rw [append_nil, append_nil] at all
      refine all.imp ?_
      rintro _ ⟨value, values, rfl, holds, rfl⟩
      simp [holds]
    | @cons comma _ behind head isComma following =>
      obtain ⟨rfl, rfl⟩ := List.cons.inj shape
      simp only [length_append, length_cons] at enough turns
      have tail := ih following others rounds (by omega) (by omega)
      have separate : Reads (separator .rightParen message) [comma.lexeme]
          (lexemesOf behind ++ rest) fun _ => True := by
        rw [Token.lexeme_of_kind isComma]
        exact reads_separator_comma (by simp [ne_nil_of_headKind close])
      obtain ⟨kind, first, opening⟩ := back.opening ([comma.lexeme] ++ lexemesOf behind ++ rest)
      have next : headKind ([comma.lexeme] ++ lexemesOf behind ++ rest) = some .comma := by
        rw [← isComma]
        rfl
      have item := back.2.expr next (by decide) (show part.1.length + _ < fuel by
        simp only [length_append, length_cons, length_nil, length_lexemesOf]
        omega)
      have all := separatedItems_cons first opening item separate tail
      rw [lexemesOf_append, lexemesOf_cons]
      refine all.imp ?_
      rintro _ ⟨value, values, rfl, holds, holdsAll⟩
      simp only [map_cons, holds, holdsAll]

/-- The rest of a tuple is read up to the parenthesis. -/
theorem reads_tupleTail (fuel : Nat) (separated : Separated ((part :: parts).map Prod.fst) tokens)
    (each : ∀ other ∈ parts, ReadPart other) (rounds : Nat)
    (close : headKind rest = some .rightParen) (enough : tokens.length + rest.length < fuel)
    (turns : tokens.length + rest.length < rounds) : ∃ behind kind, tokens = part.1 ++ behind ∧
      headKind (lexemesOf behind ++ rest) = some kind ∧ endsExpression kind = true ∧
      Reads (tupleTail (expr fuel) rounds) (lexemesOf behind) rest
        fun found => found.map Expr.strip = parts.map fun part => part.2.strip := by
  induction parts generalizing part tokens rounds with
  | nil =>
    obtain ⟨rounds, rfl⟩ : ∃ n, rounds = n + 1 := ⟨rounds - 1, by omega⟩
    cases separated with
    | last =>
      refine ⟨[], .rightParen, (append_nil _).symm, close, by decide, ?_⟩
      apply (reads_accept_other ⟨_, close, by decide⟩).last
      rintro _ rfl
      rw [if_neg (by decide)]
      exact reads_pure rfl
    | @cons comma _ behind head isComma following =>
      cases following
      refine ⟨[comma], .comma, rfl, by rw [← isComma]; rfl, by decide, ?_⟩
      rw [lexemesOf_cons, Token.lexeme_of_kind isComma]
      apply (reads_accept (by simp [ne_nil_of_headKind close])).cons
      rintro _ rfl
      rw [if_pos rfl]
      refine Reads.peek (show ([] ++ rest).head?.map Prod.fst = some .rightParen from close) ?_
      rw [if_pos rfl]
      exact reads_pure rfl
  | cons next parts ih =>
    obtain ⟨rounds, rfl⟩ : ∃ n, rounds = n + 1 := ⟨rounds - 1, by omega⟩
    cases separated with
    | @cons comma _ behind head isComma following =>
      simp only [length_append, length_cons] at enough turns
      obtain ⟨later, kind, rfl, front, ends, tail⟩ := ih following
        (fun other member => each other (mem_cons_of_mem _ member)) rounds (by omega) (by omega)
      have back := each next mem_cons_self
      refine ⟨comma :: (next.1 ++ later), .comma, rfl, by rw [← isComma]; rfl, by decide, ?_⟩
      simp only [length_append] at enough turns
      rw [lexemesOf_cons, lexemesOf_append, Token.lexeme_of_kind isComma]
      apply (reads_accept (by simp [ne_nil_of_headKind close])).cons
      rintro _ rfl
      rw [if_pos rfl]
      obtain ⟨start, first, opening⟩ := back.opening (lexemesOf later ++ rest)
      rw [← append_assoc] at first
      apply Reads.peek first
      rw [if_neg opening]
      apply (back.2.expr front ends (by
        simp only [length_append, length_lexemesOf]
        omega)).bind
      intro value holds
      apply tail.last
      intro values holdsAll
      exact reads_pure (by simp only [map_cons, holds, holdsAll])

/-- A call is read when its arguments are. -/
theorem readAt_call {word : Token} (info : NodeInfo) {arguments : List (List Token × Expr)}
    (named : word.lexeme = name.lexeme) (opens : open_.kind = .leftParen)
    (separated : Separated (arguments.map Prod.fst) tokens)
    (each : ∀ argument ∈ arguments, ReadPart argument) (closes : close.kind = .rightParen) :
    ReadAt 0 (word :: open_ :: (tokens ++ [close])) (.call info name (arguments.map Prod.snd)) := by
  intro fuel rest kind head _ enough
  have more := ne_nil_of_headKind head
  simp only [length_cons, length_append, length_nil] at enough
  simp only [lexemesOf_cons, lexemesOf_append, lexemesOf_nil, named, Token.lexeme_of_kind opens,
    Token.lexeme_of_kind closes]
  have inner := reads_separated "expected `,` or `)` after a call argument" fuel separated each fuel
    (show headKind ([(TokenKind.rightParen, close.text)] ++ rest) = some .rightParen from rfl)
    (by simp only [length_append, length_cons, length_nil]; omega)
    (by simp only [length_append, length_cons, length_nil]; omega)
  refine Reads.peek (show ((name.lexeme :: _) ++ rest).head?.map Prod.fst = some .identifier
    from rfl) ?_
  apply (reads_takeIdentifier name (by simp)).cons
  rintro found rfl
  apply (reads_accept (by simp)).cons
  rintro _ rfl
  rw [if_pos rfl]
  apply inner.bind
  intro values holds
  apply (reads_take more).last
  intro _ _
  apply reads_node
  intro info
  simp only [Expr.strip, Expr.stripAll_eq_map, holds, map_map, Function.comp_def]

/-- A conditional is read when its parts are. -/
theorem readAt_conditional {if_ else_ open' close' : Token} (info : NodeInfo)
    {conditionTokens yesTokens noTokens : List Token} {condition yes no : Expr}
    (isIf : if_.kind = .ifKw) (ofCondition : ReadAt loosest conditionTokens condition)
    (opens : open_.kind = .leftBrace) (ofYes : ReadAt loosest yesTokens yes)
    (closes : close.kind = .rightBrace) (isElse : else_.kind = .elseKw)
    (opens' : open'.kind = .leftBrace) (ofNo : ReadAt loosest noTokens no)
    (closes' : close'.kind = .rightBrace) :
    ReadAt 0 (if_ :: (conditionTokens ++ open_ :: (yesTokens ++ close :: else_ :: open' ::
      (noTokens ++ [close'])))) (.conditional info condition yes no) := by
  intro fuel rest kind head _ enough
  have more := ne_nil_of_headKind head
  simp only [length_cons, length_append, length_nil] at enough
  simp only [lexemesOf_cons, lexemesOf_append, lexemesOf_nil, Token.lexeme_of_kind isIf,
    Token.lexeme_of_kind opens, Token.lexeme_of_kind closes, Token.lexeme_of_kind isElse,
    Token.lexeme_of_kind opens', Token.lexeme_of_kind closes']
  refine Reads.peek (show (((TokenKind.ifKw, if_.text) :: _) ++ rest).head?.map Prod.fst =
    some .ifKw from rfl) ?_
  apply (reads_take (by simp)).cons
  intro _ _
  apply (ofCondition.expr rfl rfl (by
    simp only [cons_append, append_assoc, length_cons, length_append, length_lexemesOf, length_nil]
    omega)).bind
  intro conditionValue conditionHolds
  apply (reads_take (by simp)).cons
  intro _ _
  apply (ofYes.expr rfl rfl (by
    simp only [cons_append, append_assoc, length_cons, length_append, length_lexemesOf, length_nil]
    omega)).bind
  intro yesValue yesHolds
  apply (reads_take (by simp)).cons
  intro _ _
  apply (reads_take (by simp)).cons
  intro _ _
  apply (reads_take (by simp)).cons
  intro _ _
  apply (ofNo.expr rfl rfl (by
    simp only [cons_append, length_cons, nil_append]
    omega)).bind
  intro noValue noHolds
  apply (reads_take more).last
  intro _ _
  apply reads_node
  intro info
  simp only [Expr.strip, conditionHolds, yesHolds, noHolds]

theorem readAt_group (opens : open_.kind = .leftParen) (inner : ReadAt loosest tokens expression)
    (closes : close.kind = .rightParen) : ReadAt 0 (open_ :: (tokens ++ [close])) expression := by
  intro fuel rest kind head _ enough
  have more := ne_nil_of_headKind head
  simp only [length_cons, length_append, length_nil] at enough
  simp only [lexemesOf_cons, lexemesOf_append, lexemesOf_nil, Token.lexeme_of_kind opens,
    Token.lexeme_of_kind closes]
  refine Reads.peek (show (((TokenKind.leftParen, open_.text) :: _) ++ rest).head?.map Prod.fst =
    some .leftParen from rfl) ?_
  apply (reads_take (by simp)).cons
  intro _ _
  apply (inner.expr rfl rfl (by
    simp only [cons_append, length_cons, nil_append]
    omega)).bind
  intro value holds
  apply (reads_accept_other ⟨.rightParen, rfl, by decide⟩).skip
  rintro _ rfl
  rw [if_neg (by decide)]
  apply (reads_take more).last
  intro _ _
  exact reads_pure holds

/-- A tuple is read when its elements are. -/
theorem readAt_tuple (info : NodeInfo) {elements : List (List Token × Expr)}
    (opens : open_.kind = .leftParen) (pair : 2 ≤ elements.length)
    (separated : Separated (elements.map Prod.fst) tokens)
    (each : ∀ element ∈ elements, ReadPart element) (closes : close.kind = .rightParen) :
    ReadAt 0 (open_ :: (tokens ++ [close])) (.tuple info (elements.map Prod.snd)) := by
  obtain ⟨first, second, later, rfl⟩ : ∃ first second later,
      elements = first :: second :: later := by
    match elements, pair with
    | first :: second :: later, _ => exact ⟨first, second, later, rfl⟩
  intro fuel rest kind head _ enough
  have more := ne_nil_of_headKind head
  cases separated with
  | @cons comma _ behind _ isComma following =>
    simp only [length_cons, length_append, length_nil] at enough
    obtain ⟨tail, next, rfl, front, ends, reads⟩ := reads_tupleTail fuel following
      (fun other member => each other (mem_cons_of_mem _ (mem_cons_of_mem _ member))) fuel
      (show headKind ([(TokenKind.rightParen, close.text)] ++ rest) = some .rightParen from rfl)
      (by simp only [length_append, length_cons, length_nil]; omega)
      (by simp only [length_append, length_cons, length_nil]; omega)
    simp only [length_append] at enough
    simp only [lexemesOf_cons, lexemesOf_append, lexemesOf_nil, Token.lexeme_of_kind opens,
      Token.lexeme_of_kind closes, Token.lexeme_of_kind isComma, append_assoc,
      cons_append]
    refine Reads.peek (show (((TokenKind.leftParen, open_.text) :: _) ++ rest).head?.map Prod.fst =
      some .leftParen from rfl) ?_
    apply (reads_take (by simp)).cons
    intro _ _
    apply ((each first mem_cons_self).2.expr rfl rfl (by
      simp only [cons_append, append_assoc, length_cons, length_append,
        length_lexemesOf, length_nil]
      omega)).bind
    intro firstValue firstHolds
    have some : lexemesOf second.1 ≠ [] := by
      obtain ⟨⟨token, others, shape, -⟩, -⟩ := each second (by simp)
      simp [shape]
    apply (reads_accept (by simp [some])).cons
    rintro _ rfl
    rw [if_pos rfl]
    apply ((each second (by simp)).2.expr (by rw [append_assoc]; exact front) ends (by
      simp only [append_assoc, length_cons, length_append, length_lexemesOf, length_nil]
      omega)).bind
    intro secondValue secondHolds
    apply reads.bind
    intro values holds
    apply (reads_take more).last
    intro _ _
    apply reads_node
    intro info
    simp only [Expr.strip, Expr.stripAll_eq_map, map_cons, firstHolds, secondHolds, holds,
      map_map, Function.comp_def]

/-- The parser of a level reads what the level derives. -/
theorem Derives.read (derives : Derives places level tokens expression) :
    ReadAt level tokens expression ∧
      ∀ tighter, level = tighter + 1 → tighter < operatorLevels.length →
        ArrivesAt tighter tokens expression := by
  induction derives with
  | @hole mark word name info isMark named =>
    refine ⟨?_, by omega⟩
    intro fuel rest kind head _ _
    simp only [lexemesOf_cons, lexemesOf_nil, named, Token.lexeme_of_kind isMark]
    refine Reads.peek (show ([(TokenKind.question, mark.text), name.lexeme] ++
      rest).head?.map Prod.fst = some .question from rfl) ?_
    apply (reads_take (by simp)).cons
    intro _ _
    apply (reads_takeIdentifier name (ne_nil_of_headKind head)).last
    rintro found rfl
    exact reads_node fun _ => rfl
  | @name word name info named =>
    refine ⟨?_, by omega⟩
    intro fuel rest kind head outside _
    simp only [lexemesOf_cons, lexemesOf_nil, named]
    refine Reads.peek (show ([name.lexeme] ++ rest).head?.map Prod.fst = some .identifier
      from rfl) ?_
    apply (reads_takeIdentifier name (ne_nil_of_headKind head)).last
    rintro found rfl
    apply (reads_accept_other ⟨kind, head, outside.1⟩).last
    rintro _ rfl
    rw [if_neg (by decide)]
    exact reads_node fun _ => rfl
  | @call word open_ close name info tokens arguments named opens separated each closes _ ih =>
    exact ⟨readAt_call info named opens separated
      (fun argument member => ⟨(each argument member).head, (ih argument member).1⟩) closes,
      by omega⟩
  | @boolean word value info isValue =>
    refine ⟨?_, by omega⟩
    intro fuel rest kind head _ _
    have more := ne_nil_of_headKind head
    simp only [lexemesOf_cons, lexemesOf_nil, Token.lexeme_of_kind isValue]
    have literal : Reads (booleanLiteral value) [(booleanKind value, word.text)] rest
        fun found => found.strip = .boolean {} value := by
      intro state here
      obtain ⟨later, run, there⟩ := advance_run here more
      refine ⟨.boolean ⟨state.current.span, later.nextNodeId⟩ value,
        { later with nextNodeId := later.nextNodeId + 1 }, ?_, rfl, there⟩
      unfold booleanLiteral
      rw [run_get_bind, run_bind_of_ok run]
      rfl
    refine Reads.peek (show ([(booleanKind value, word.text)] ++ rest).head?.map Prod.fst =
      some (booleanKind value) from rfl) ?_
    cases value <;> exact literal
  | @integer digits literal info isInteger unsigned same =>
    refine ⟨?_, by omega⟩
    intro fuel rest kind head _ _
    obtain ⟨negative, text, valid⟩ := literal
    subst unsigned same
    simp only [lexemesOf_cons, lexemesOf_nil, Token.lexeme_of_kind isInteger]
    refine Reads.peek (show ([(TokenKind.integer, digits.text)] ++ rest).head?.map Prod.fst =
      some .integer from rfl) ?_
    apply (reads_takeInteger (ne_nil_of_headKind head)).last
    rintro found same
    exact reads_node fun _ => by simp [Expr.strip, same]
  | @negative sign digits literal info isSign isInteger signed same =>
    refine ⟨?_, by omega⟩
    intro fuel rest kind head _ _
    obtain ⟨negative, text, valid⟩ := literal
    subst signed same
    simp only [lexemesOf_cons, lexemesOf_nil, Token.lexeme_of_kind isInteger,
      Token.lexeme_of_kind isSign]
    refine Reads.peek (show ([(TokenKind.minus, sign.text), (TokenKind.integer, digits.text)] ++
      rest).head?.map Prod.fst = some .minus from rfl) ?_
    apply (reads_take (by simp)).cons
    intro _ _
    apply (reads_takeInteger (ne_nil_of_headKind head)).last
    rintro found same
    exact reads_node fun _ => by simp [Expr.strip, same]
  | conditional isIf _ opens _ closes isElse opens' _ closes' _ condition yes no =>
    exact ⟨readAt_conditional _ isIf condition.1 opens yes.1 closes isElse opens' no.1 closes',
      by omega⟩
  | group opens _ closes inner => exact ⟨readAt_group opens inner.1 closes, by omega⟩
  | tuple opens pair separated each closes _ ih =>
    exact ⟨readAt_tuple _ opens pair separated
      (fun element member => ⟨(each element member).head, (ih element member).1⟩) closes,
      by omega⟩
  | @operand level tokens expression inner ih =>
    have arrives := ih.1.arrives inner.ne_nil
    by_cases bounded : level < operatorLevels.length
    · refine ⟨arrives.read bounded, ?_⟩
      intro tighter same _
      obtain rfl : level = tighter := by omega
      exact arrives
    · refine ⟨?_, by omega⟩
      have same : ∀ many, level ≤ many → operatorLevels.take many = operatorLevels := fun many le =>
        take_of_length_le (by omega)
      intro fuel rest kind head outside enough
      rw [levelParser, same _ (Nat.le_succ _)]
      rw [Outside, same _ (Nat.le_succ _)] at outside
      have reads := ih.1 fuel rest kind head (by rw [Outside, same _ (Nat.le_refl _)]; exact outside)
        enough
      rw [levelParser, same _ (Nat.le_refl _)] at reads
      exact reads
  | @operation level leftTokens rightTokens token op left right info strength _ isOp _ _ leftIh
      rightIh =>
    have bounded : level < operatorLevels.length := by
      have most : op.looseness ≤ 5 := by cases op <;> decide
      have five : operatorLevels.length = 5 := rfl
      omega
    have arrives := arrivesAt_operation strength (leftIh.2 level rfl bounded) isOp rightIh.1 info
    refine ⟨arrives.read bounded, ?_⟩
    intro tighter same _
    obtain rfl : level = tighter := by omega
    exact arrives

/-! ## Printed expressions are derived -/

/-- Neither a name nor an integer, at no place. -/
def Token.plain (kind : TokenKind) (text : SourceText)
    (other : kind ≠ .identifier ∧ kind ≠ .integer) : Token :=
  ⟨kind, {}, text, fun same => absurd same other.1, fun same => absurd same other.2⟩

def Identifier.token (name : Identifier) : Token :=
  ⟨.identifier, {}, name.text.toList, fun _ => name.valid, nofun⟩

/-- The digits of a literal as a token at no place. -/
def IntegerText.token (literal : IntegerText) : Token :=
  ⟨.integer, {}, literal.digits, nofun, fun _ => literal.valid⟩

def BinaryOp.token (op : BinaryOp) : Token :=
  Token.plain op.lexeme.1 op.lexeme.2 (by cases op <;> decide)

/-- Lexemes of tokens that derive it as a primary. -/
def PrintedAs (lexemes : List Lexeme) (expression : Expr) : Prop :=
  ∃ tokens, lexemesOf tokens = lexemes ∧ Derives (fun _ _ => True) 0 tokens expression

theorem Derives.loosen (steps : Nat) (derives : Derives places level tokens expression) :
    Derives places (level + steps) tokens expression := by
  induction steps with
  | zero => exact derives
  | succ steps ih => exact .operand ih

theorem printed_elements {elements : List Expr}
    (each : ∀ element ∈ elements, PrintedAs element.lexemes element) :
    ∃ (parts : List (List Token × Expr)) (tokens : List Token),
      parts.map Prod.snd = elements ∧ Separated (parts.map Prod.fst) tokens ∧
      lexemesOf tokens = elementLexemes elements ∧
      ∀ part ∈ parts, Derives (fun _ _ => True) loosest part.1 part.2 := by
  induction elements with
  | nil => exact ⟨[], [], rfl, .nil, rfl, by simp⟩
  | cons element elements ih =>
    obtain ⟨tokens, lexemes, derives⟩ := each element mem_cons_self
    obtain ⟨parts, later, rfl, separated, behind, all⟩ := ih fun other member =>
      each other (mem_cons_of_mem _ member)
    have derivesAll : ∀ part ∈ (tokens, element) :: parts,
        Derives (fun _ _ => True) loosest part.1 part.2 :=
      forall_mem_cons.mpr ⟨derives.loosen loosest, all⟩
    cases parts with
    | nil =>
      refine ⟨[(tokens, element)], tokens, rfl, .last tokens, ?_, derivesAll⟩
      simp [elementLexemes, laterLexemes, lexemes]
    | cons part parts =>
      refine ⟨(tokens, element) :: part :: parts,
        tokens ++ Token.plain .comma [','] (by decide) :: later, rfl, .cons tokens rfl separated, ?_,
        derivesAll⟩
      rw [lexemesOf_append, lexemesOf_cons, lexemes, behind]
      rfl

theorem printed_binary (info : NodeInfo) (op : BinaryOp) (leftPrinted : PrintedAs left.lexemes left)
    (rightPrinted : PrintedAs right.lexemes right) :
    PrintedAs (Expr.binary info op left right).lexemes (.binary info op left right) := by
  obtain ⟨leftTokens, leftLexemes, ofLeft⟩ := leftPrinted
  obtain ⟨rightTokens, rightLexemes, ofRight⟩ := rightPrinted
  obtain ⟨level, strength, bounded⟩ : ∃ level, op.looseness = level + 1 ∧ level + 1 ≤ loosest := by
    cases op <;> exact ⟨_, rfl, by decide⟩
  have operation : Derives (fun _ _ => True) (level + 1) (leftTokens ++ op.token :: rightTokens)
      (.binary info op left right) := by
    refine .operation strength ?_ rfl ?_ trivial
    · have loose := ofLeft.loosen (level + 1)
      rwa [Nat.zero_add] at loose
    · have loose := ofRight.loosen level
      rwa [Nat.zero_add] at loose
  have whole := operation.loosen (loosest - (level + 1))
  rw [Nat.add_sub_of_le bounded] at whole
  refine ⟨Token.plain .leftParen ['('] (by decide) :: ((leftTokens ++ op.token :: rightTokens) ++
    [Token.plain .rightParen [')'] (by decide)]), ?_, .group rfl whole rfl⟩
  rw [Expr.lexemes, ← leftLexemes, ← rightLexemes]
  simp only [lexemesOf_cons, lexemesOf_append, lexemesOf_nil, append_assoc, cons_append]
  rfl

/-- Printed tokens derive the expression. -/
theorem printed_derives (expression : Expr) (readable : expression.readable = true) :
    PrintedAs expression.lexemes expression := by
  induction expression with
  | name info name => exact ⟨[name.token], rfl, .name rfl trivial⟩
  | boolean info value =>
    cases value
    · exact ⟨[Token.plain .falseKw "false".toList (by decide)], rfl, .boolean rfl trivial⟩
    · exact ⟨[Token.plain .trueKw "true".toList (by decide)], rfl, .boolean rfl trivial⟩
  | integer info literal =>
    cases sign : literal.negative
    · refine ⟨[literal.token], ?_, .integer rfl sign rfl trivial⟩
      simp only [Expr.lexemes, IntegerText.lexemes, sign]
      rfl
    · refine ⟨[Token.plain .minus ['-'] (by decide), literal.token], ?_,
        .negative rfl rfl sign rfl trivial⟩
      simp only [Expr.lexemes, IntegerText.lexemes, sign]
      rfl
  | tuple info elements ih =>
    simp only [Expr.readable, Bool.and_eq_true, decide_eq_true_eq, readableAll_iff] at readable
    obtain ⟨parts, tokens, rfl, separated, lexemes, derives⟩ := printed_elements
      fun element member => ih element member (readable.2 element member)
    refine ⟨Token.plain .leftParen ['('] (by decide) :: (tokens ++
      [Token.plain .rightParen [')'] (by decide)]), ?_,
      .tuple rfl (by simpa using readable.1) separated derives rfl trivial⟩
    rw [lexemesOf_cons, lexemesOf_append, lexemes]
    rfl
  | call info name elements ih =>
    simp only [Expr.readable, readableAll_iff] at readable
    obtain ⟨parts, tokens, rfl, separated, lexemes, derives⟩ := printed_elements
      fun element member => ih element member (readable element member)
    refine ⟨name.token :: Token.plain .leftParen ['('] (by decide) :: (tokens ++
      [Token.plain .rightParen [')'] (by decide)]), ?_,
      .call rfl rfl separated derives rfl trivial⟩
    rw [lexemesOf_cons, lexemesOf_cons, lexemesOf_append, lexemes]
    rfl
  | binary info op left right leftIh rightIh =>
    simp only [Expr.readable, Bool.and_eq_true] at readable
    exact printed_binary info op (leftIh readable.1) (rightIh readable.2)
  | conditional info condition yes no conditionIh yesIh noIh =>
    simp only [Expr.readable, Bool.and_eq_true] at readable
    obtain ⟨conditionTokens, conditionLexemes, ofCondition⟩ := conditionIh readable.1.1
    obtain ⟨yesTokens, yesLexemes, ofYes⟩ := yesIh readable.1.2
    obtain ⟨noTokens, noLexemes, ofNo⟩ := noIh readable.2
    refine ⟨Token.plain .ifKw "if".toList (by decide) :: (conditionTokens ++
      Token.plain .leftBrace ['\x7b'] (by decide) :: (yesTokens ++
        Token.plain .rightBrace ['\x7d'] (by decide) ::
        Token.plain .elseKw "else".toList (by decide) ::
        Token.plain .leftBrace ['\x7b'] (by decide) :: (noTokens ++
          [Token.plain .rightBrace ['\x7d'] (by decide)]))), ?_,
      .conditional rfl (ofCondition.loosen loosest) rfl (ofYes.loosen loosest) rfl rfl rfl
        (ofNo.loosen loosest) rfl trivial⟩
    rw [Expr.lexemes, ← conditionLexemes, ← yesLexemes, ← noLexemes]
    simp only [lexemesOf_cons, lexemesOf_append, lexemesOf_nil]
    rfl
  | hole info name =>
    exact ⟨[Token.plain .question ['?'] (by decide), name.token], rfl, .hole rfl rfl trivial⟩

theorem readsBack (expression : Expr) (readable : expression.readable = true) :
    ReadsBack expression := by
  obtain ⟨tokens, lexemes, derives⟩ := printed_derives expression readable
  intro fuel rest kind head opening enough
  rw [← lexemes] at enough ⊢
  refine derives.read.1 fuel rest kind head ⟨opening, by simp⟩ ?_
  simpa using enough

end Fine.Syntax
