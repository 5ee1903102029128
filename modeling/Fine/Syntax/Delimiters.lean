import Fine.Library.Brackets
import Fine.Syntax.Spans

/-!
# Spans as delimiters

The tokens of a span are lexed again as they were. The span of an operation loses the outer
parentheses of its first and last operand, so a span delimits its node exactly when no operand of an
operation is written in parentheses.
-/

namespace Fine.Syntax

open Fine.Fallible Fine.Intervals Fine.Brackets List

/-! ## Lexing a stretch of a text -/

/-- A token is read alone as it is read before other text. -/
theorem scan_alone {text : SourceText} {found : Found} (read : scan text = some found)
    (more : found.kind ≠ .eof) : scan found.text = some ⟨found.kind, found.text, []⟩ := by
  have whole : ∀ (accepts : Char → Bool) (tail : SourceText),
      (tail.takeWhile accepts).takeWhile accepts = tail.takeWhile accepts ∧
        (tail.takeWhile accepts).dropWhile accepts = [] := by
    intro accepts tail
    have inside : ∀ element ∈ tail.takeWhile accepts, accepts element = true :=
      fun element member => mem_takeWhile_imp member
    exact ⟨takeWhile_eq_self_iff.mpr inside, dropWhile_eq_nil_iff.mpr inside⟩
  unfold scan at read
  split at read
  · cases read
    exact absurd rfl more
  · rename_i character tail
    split at read
    · rename_i start
      cases read
      simp only [scan, start, ↓reduceIte, whole]
    · rename_i start
      split at read
      · rename_i digit
        cases read
        simp only [scan, start, digit, Bool.false_eq_true, ↓reduceIte, whole]
      · rename_i digit
        cases tail with
        | nil =>
          obtain ⟨kind, known, rfl⟩ := Option.map_eq_some_iff.mp read
          simp [scan, start, digit, symbol, known]
        | cons second tail =>
          simp only [symbol] at read
          split at read
          · rename_i kind known
            cases read
            simp [scan, start, digit, symbol, known]
          · obtain ⟨kind, known, rfl⟩ := Option.map_eq_some_iff.mp read
            simp [scan, start, digit, symbol, known]

theorem Lexes.alone {blank text behind : SourceText} {kind : TokenKind}
    (skip : skipped (blank ++ (text ++ behind)) = text ++ behind)
    (scanned : scan (text ++ behind) = some ⟨kind, text, behind⟩) (more : kind ≠ .eof) :
    Lexes (blank ++ text) [(kind, text)] [] := by
  have nonempty := (scan_split scanned).2 more
  have again := scan_alone scanned more
  cases text with
  | nil => exact absurd rfl nonempty
  | cons first later =>
    have solid := scan_solid scanned
    have skip' : skipped (blank ++ first :: later) = first :: later :=
      skip_congr skip solid.1 ⟨solid.2, solid.2⟩ later
    exact Lexes.one (by rw [skip']; exact again) more

/-- First and last token begin and end the span. -/
def Covers (tokens : List Token) (span : SourceSpan) : Prop :=
  (tokens.head?.map fun token => token.span.start) = some span.start ∧
    (tokens.getLast?.map fun token => token.span.stop) = some span.stop

/-- The text of a span. -/
def SourceSpan.text (source : SourceText) (span : SourceSpan) : SourceText :=
  (source.take span.stop.offset).drop span.start.offset

variable {token : Token} {tokens inner : List Token} {span : SourceSpan}
  {places : NodeInfo → SourceSpan → Prop} {level : Nat} {source : SourceText}

theorem lexFrom_step {fuel : Nat} {scanner : Scanner}
    (lexed : (lexFrom fuel scanner).tokens = token :: tokens) (more : token.kind ≠ .eof) :
    ∃ fuel' after, next scanner = .ok (token, after) ∧ (lexFrom fuel' after).tokens = tokens := by
  cases fuel with
  | zero => cases lexed
  | succ fuel =>
    unfold lexFrom at lexed
    cases read : next scanner with
    | error refusal =>
      rw [read] at lexed
      cases lexed
    | ok found =>
      rw [read] at lexed
      simp only at lexed
      split at lexed
      · rename_i last
        cases lexed
        exact absurd last more
      · obtain ⟨rfl, tail⟩ := List.cons.inj lexed
        exact ⟨fuel, found.2, rfl, tail⟩

/-- Tokens at the front are lexed again when the text is cut behind them. -/
theorem lexFrom_cut (fuel : Nat) (position : SourcePosition) {text : SourceText} {back : List Token}
    (lexed : (lexFrom fuel ⟨position, text⟩).tokens = token :: (inner ++ back))
    (plain : ∀ other ∈ token :: inner, other.kind ≠ .eof) {last : Token}
    (final : (token :: inner).getLast? = some last) :
    Lexes (text.take (last.span.stop.offset - position.offset)) (lexemesOf (token :: inner)) [] ∧
      position.offset ≤ token.span.start.offset ∧
      token.span.start.offset < last.span.stop.offset := by
  induction inner generalizing fuel position text token with
  | nil =>
    obtain rfl : token = last := Option.some.inj final
    obtain ⟨fuel', after, read, -⟩ := lexFrom_step lexed (plain token mem_cons_self)
    obtain ⟨blank, split, skip, scanned, start, stop, place, -⟩ := next_ok read
    have more := plain token mem_cons_self
    have positive := length_pos_iff.mpr ((scan_split scanned).2 more)
    simp only at positive
    rw [stop, place, start]
    refine ⟨?_, by omega, by omega⟩
    have cut : text.take (position.offset + blank.length + token.text.length - position.offset) =
        blank ++ token.text := by
      have many : position.offset + blank.length + token.text.length - position.offset =
          (blank ++ token.text).length := by
        rw [length_append]
        omega
      rw [many, split, ← append_assoc, take_left]
    rw [cut]
    exact Lexes.alone (split ▸ skip) scanned more
  | cons next inner ih =>
    have more := plain token mem_cons_self
    obtain ⟨fuel', after, read, tail⟩ := lexFrom_step lexed more
    obtain ⟨blank, split, skip, scanned, start, stop, place, -⟩ := next_ok read
    have later := ih fuel' after.position tail
      (fun other member => plain other (mem_cons_of_mem _ member))
      (by rwa [getLast?_cons_cons] at final)
    obtain ⟨lexes, behind, beyond⟩ := later
    refine ⟨?_, by omega, by omega⟩
    have cut : text.take (last.span.stop.offset - position.offset) = blank ++ (token.text ++
        after.rest.take (last.span.stop.offset - after.position.offset)) := by
      have many : last.span.stop.offset - position.offset =
          (blank ++ token.text).length + (last.span.stop.offset - after.position.offset) := by
        rw [length_append]
        omega
      rw [many, split, ← append_assoc, take_length_add_append, append_assoc]
    rw [cut]
    refine Lexes.keep (split ▸ skip) scanned more (.inl ?_) lexes
    obtain ⟨count, known⟩ : ∃ count, last.span.stop.offset - after.position.offset = count + 1 :=
      ⟨last.span.stop.offset - after.position.offset - 1, by omega⟩
    rw [known]
    cases after.rest <;> rfl

/-- Tokens that stand together are lexed again from the text of their span. -/
theorem lexFrom_span (fuel : Nat) (position : SourcePosition) {before text : SourceText}
    {front back : List Token}
    (lexed : (lexFrom fuel ⟨position, text⟩).tokens = front ++ (inner ++ back))
    (place : before.length = position.offset) (plain : ∀ other ∈ front ++ inner, other.kind ≠ .eof)
    (covers : Covers inner span) : Lexes (span.text (before ++ text)) (lexemesOf inner) [] := by
  induction front generalizing fuel position before text with
  | nil =>
    cases inner with
    | nil => cases covers.1
    | cons token inner =>
      obtain ⟨last, final, stop⟩ := Option.map_eq_some_iff.mp covers.2
      have start : token.span.start = span.start := Option.some.inj covers.1
      obtain ⟨fuel', after, read, -⟩ := lexFrom_step lexed (plain token mem_cons_self)
      obtain ⟨blank, split, skip, scanned, begins, -⟩ := next_ok read
      obtain ⟨lexes, behind, beyond⟩ := lexFrom_cut fuel position lexed plain final
      have more := plain token mem_cons_self
      -- The cut text begins with blanks, which are not in the span.
      obtain ⟨count, many⟩ : ∃ count, last.span.stop.offset = token.span.start.offset + count + 1 :=
        ⟨last.span.stop.offset - token.span.start.offset - 1, by omega⟩
      cases word : token.text with
      | nil => exact absurd word ((scan_split scanned).2 more)
      | cons first later =>
        rw [word] at split skip scanned
        have solid := scan_solid scanned
        have shape : text.take (last.span.stop.offset - position.offset) =
            blank ++ first :: (later ++ after.rest).take count := by
          have many' : last.span.stop.offset - position.offset = blank.length + (count + 1) := by
            omega
          rw [many', split, take_length_add_append]
          rfl
        have same : span.text (before ++ text) = first :: (later ++ after.rest).take count := by
          have cut : last.span.stop.offset =
              before.length + (last.span.stop.offset - position.offset) := by omega
          rw [SourceSpan.text, ← stop, ← start, cut, take_length_add_append, shape, begins,
            ← place, ← append_assoc, ← length_append, drop_left]
        rw [same]
        rw [shape] at lexes
        refine lexes.skipTo (by simp) ?_
        rw [skipped_solid solid.1 solid.2]
        exact (skip_congr (split ▸ skip) solid.1 ⟨solid.2, solid.2⟩ _).symm
  | cons token front ih =>
    obtain ⟨fuel', after, read, tail⟩ := lexFrom_step lexed (plain token mem_cons_self)
    obtain ⟨blank, split, -, -, begins, stop, ends, -⟩ := next_ok read
    have again := @ih fuel' after.position (before ++ (blank ++ token.text)) after.rest tail (by
      simp only [length_append]
      omega) fun other member => plain other (mem_cons_of_mem _ member)
    rw [split]
    simpa using again

/-! ## Balanced tokens -/

/-- What a token is for the count of parentheses. -/
def TokenKind.side (kind : TokenKind) : Side :=
  if kind = .leftParen then .opens else if kind = .rightParen then .closes else .neither

/-- The sides of tokens. -/
def sidesOf (tokens : List Token) : List Side := tokens.map fun token => token.kind.side

@[simp] theorem sidesOf_nil : sidesOf [] = [] := rfl

@[simp] theorem sidesOf_cons (token : Token) (tokens : List Token) :
    sidesOf (token :: tokens) = token.kind.side :: sidesOf tokens := rfl

@[simp] theorem sidesOf_append (first second : List Token) :
    sidesOf (first ++ second) = sidesOf first ++ sidesOf second := map_append

theorem sidesOf_congr {first second : List Token} (same : lexemesOf first = lexemesOf second) :
    sidesOf first = sidesOf second := by
  have sides : ∀ tokens : List Token,
      sidesOf tokens = (lexemesOf tokens).map fun lexeme => lexeme.1.side := by
    intro tokens
    simp [sidesOf, lexemesOf, Token.lexeme]
  rw [sides, sides, same]

theorem Separated.balanced {parts : List (List Token)} (separated : Separated parts tokens)
    (each : ∀ part ∈ parts, Balanced (sidesOf part)) : Balanced (sidesOf tokens) := by
  induction separated with
  | nil => exact .nil
  | last part => exact each part (mem_singleton_self _)
  | cons part isComma rest ih =>
    rw [sidesOf_append, sidesOf_cons, isComma]
    exact (each part mem_cons_self).append
      (ih fun other member => each other (mem_cons_of_mem _ member)).cons

/-- The tokens of a derivation are balanced. -/
theorem Derives.balanced {expression : Expr} (derives : Derives places level tokens expression) :
    Balanced (sidesOf tokens) := by
  have plain : ∀ {rest : List Side} {side : Side}, side = .neither → Balanced rest →
      Balanced (side :: rest) := by
    rintro rest side rfl balanced
    exact balanced.cons
  have kinds : ∀ {token : Token} {kind : TokenKind}, token.kind = kind → kind.side = .neither →
      token.kind.side = .neither := by
    rintro token kind rfl side
    exact side
  have word : ∀ {token : Token} {name : Identifier}, token.lexeme = name.lexeme →
      token.kind.side = .neither := fun named => kinds (Token.kind_of_named named) rfl
  have wrapped : ∀ {open_ close : Token} {inner : List Token}, open_.kind = .leftParen →
      close.kind = .rightParen → Balanced (sidesOf inner) →
        Balanced (sidesOf (open_ :: (inner ++ [close]))) := by
    intro open_ close inner opens closes balanced
    rw [sidesOf_cons, sidesOf_append, sidesOf_cons, opens, closes]
    exact balanced.wrap
  induction derives with
  | hole isMark named => exact plain (kinds isMark rfl) (plain (word named) .nil)
  | name named => exact plain (word named) .nil
  | call named opens separated _ closes _ ih =>
    exact plain (word named) (wrapped opens closes (separated.balanced (forall_mem_map.mpr ih)))
  | @boolean _ value _ isValue => exact plain (kinds isValue (by cases value <;> rfl)) .nil
  | integer isInteger => exact plain (kinds isInteger rfl) .nil
  | negative isSign isInteger => exact plain (kinds isSign rfl) (plain (kinds isInteger rfl) .nil)
  | conditional isIf _ opens _ closes isElse opens' _ closes' _ condition yes no =>
    simp only [sidesOf_cons, sidesOf_append, sidesOf_nil]
    refine plain (kinds isIf rfl) (condition.append (plain (kinds opens rfl) (yes.append ?_)))
    refine plain (kinds closes rfl) (plain (kinds isElse rfl) (plain (kinds opens' rfl) ?_))
    exact no.append (plain (kinds closes' rfl) .nil)
  | group opens _ closes inner => exact wrapped opens closes inner
  | tuple opens _ separated _ closes _ ih =>
    exact wrapped opens closes (separated.balanced (forall_mem_map.mpr ih))
  | operand _ ih => exact ih
  | @operation level leftTokens rightTokens token op left right info _ _ isOp _ _ leftIh rightIh =>
    rw [sidesOf_append, sidesOf_cons]
    exact leftIh.append (plain (kinds isOp (by cases op <;> rfl)) rightIh)

/-! ## Nodes inside an expression -/

mutual

/-- An expression and all expressions inside it. -/
def Expr.nodes : Expr → List Expr
  | .name info name => [.name info name]
  | .boolean info value => [.boolean info value]
  | .integer info literal => [.integer info literal]
  | .tuple info elements => .tuple info elements :: nodesOf elements
  | .call info name elements => .call info name elements :: nodesOf elements
  | .binary info op left right => .binary info op left right :: (left.nodes ++ right.nodes)
  | .conditional info condition yes no =>
    .conditional info condition yes no :: (condition.nodes ++ (yes.nodes ++ no.nodes))
  | .hole info name => [.hole info name]

def nodesOf : List Expr → List Expr
  | [] => []
  | expression :: expressions => expression.nodes ++ nodesOf expressions

end

theorem nodesOf_eq_flatMap (expressions : List Expr) :
    nodesOf expressions = expressions.flatMap Expr.nodes := by
  induction expressions with
  | nil => rfl
  | cons expression expressions ih => rw [nodesOf, ih, flatMap_cons]

theorem Expr.nodes_eq (expression : Expr) :
    expression.nodes = expression :: expression.elements.flatMap Expr.nodes := by
  cases expression <;> simp [Expr.nodes, Expr.elements, nodesOf_eq_flatMap]

theorem Expr.elements_induction {motive : Expr → Prop}
    (step : ∀ expression : Expr, (∀ element ∈ expression.elements, motive element) →
      motive expression) (expression : Expr) : motive expression := by
  induction expression with
  | name info name | boolean info value | integer info literal | hole info name =>
    exact step _ nofun
  | tuple info elements ih | call info name elements ih => exact step _ ih
  | binary info op left right leftIh rightIh =>
    exact step _ (forall_mem_cons.mpr ⟨leftIh, forall_mem_singleton.mpr rightIh⟩)
  | conditional info condition yes no conditionIh yesIh noIh =>
    exact step _ (forall_mem_cons.mpr ⟨conditionIh,
      forall_mem_cons.mpr ⟨yesIh, forall_mem_singleton.mpr noIh⟩⟩)

theorem Expr.nodes_trans {inner middle : Expr} (below : inner ∈ middle.nodes) (outer : Expr) :
    middle ∈ outer.nodes → inner ∈ outer.nodes := by
  induction outer using Expr.elements_induction with
  | step outer ih =>
    intro member
    rw [Expr.nodes_eq] at member ⊢
    rcases mem_cons.mp member with rfl | deeper
    · rwa [Expr.nodes_eq] at below
    · obtain ⟨element, direct, inside⟩ := mem_flatMap.mp deeper
      exact mem_cons_of_mem _ (mem_flatMap.mpr ⟨element, direct, ih element direct inside⟩)

theorem Expr.innermost {holds : Expr → Prop} (expression : Expr)
    (fails : ¬ ∀ node ∈ expression.nodes, holds node) :
    ∃ node ∈ expression.nodes, ¬ holds node ∧
      ∀ element ∈ node.elements, ∀ inner ∈ element.nodes, holds inner := by
  induction expression using Expr.elements_induction with
  | step expression ih =>
    by_cases below : ∀ element ∈ expression.elements, ∀ inner ∈ element.nodes, holds inner
    · refine ⟨expression, ?_, ?_, below⟩
      · rw [Expr.nodes_eq]
        exact mem_cons_self
      · intro here
        apply fails
        rw [Expr.nodes_eq]
        refine forall_mem_cons.mpr ⟨here, ?_⟩
        intro node member
        obtain ⟨element, direct, inside⟩ := mem_flatMap.mp member
        exact below element direct node inside
    · push Not at below
      obtain ⟨element, direct, inner, inside, wrong⟩ := below
      obtain ⟨node, member, found⟩ := ih element direct fun all => wrong (all inner inside)
      refine ⟨node, ?_, found⟩
      rw [Expr.nodes_eq]
      exact mem_cons_of_mem _ (mem_flatMap.mpr ⟨element, direct, member⟩)

/-! ## Every node is a slice -/

theorem Slice.mono {outer : List Token} {expression : Expr} (slice : Slice inner expression)
    (part : inner <:+: outer) : Slice outer expression := by
  obtain ⟨front, taken, back, rfl, derives⟩ := slice
  obtain ⟨before, after, rfl⟩ := part
  exact ⟨before ++ front, taken, back ++ after, by simp, derives⟩

theorem Separated.part {parts : List (List Token)} (separated : Separated parts tokens) :
    ∀ part ∈ parts, part <:+: tokens := by
  induction separated with
  | nil => simp
  | last part => simp
  | @cons comma parts tokens part isComma rest ih =>
    refine forall_mem_cons.mpr ⟨⟨[], comma :: tokens, rfl⟩, ?_⟩
    intro other member
    obtain ⟨before, after, rfl⟩ := ih other member
    exact ⟨part ++ comma :: before, after, by simp⟩

theorem BinaryOp.looseness_le (op : BinaryOp) : op.looseness ≤ loosest := by
  cases op <;> decide

theorem Derives.expression {expression : Expr} (derives : Derives places level tokens expression)
    (bound : level ≤ loosest) : Derives places loosest tokens expression := by
  have raised := derives.loosen (loosest - level)
  rwa [Nat.add_sub_cancel' bound] at raised

/-- Every node is derived from tokens in a row. -/
theorem Derives.slice {expression : Expr} (derives : Derives NodeInfo.Exact level tokens expression)
    (bound : level ≤ loosest) : ∀ node ∈ expression.nodes, Slice tokens node := by
  have whole : ∀ {level : Nat} {tokens : List Token} {expression : Expr},
      Derives NodeInfo.Exact level tokens expression → level ≤ loosest →
        (∀ element ∈ expression.elements, ∀ node ∈ element.nodes, Slice tokens node) →
          ∀ node ∈ expression.nodes, Slice tokens node := by
    intro level tokens expression derives bound below
    rw [Expr.nodes_eq]
    refine forall_mem_cons.mpr ⟨⟨[], tokens, [], by simp, derives.expression bound⟩, ?_⟩
    intro node member
    obtain ⟨element, direct, inside⟩ := mem_flatMap.mp member
    exact below element direct node inside
  have parts : ∀ {list : List (List Token × Expr)} {inner outer : List Token},
      Separated (list.map Prod.fst) inner → inner <:+: outer →
        (∀ part ∈ list, loosest ≤ loosest → ∀ node ∈ part.2.nodes, Slice part.1 node) →
          ∀ element ∈ list.map Prod.snd, ∀ node ∈ element.nodes, Slice outer node := by
    intro list inner outer separated inside each
    refine forall_mem_map.mpr ?_
    intro part member node below
    exact (each part member (Nat.le_refl _) node below).mono
      ((separated.part part.1 (mem_map_of_mem member)).trans inside)
  induction derives with
  | hole isMark named placed => exact whole (.hole isMark named placed) bound nofun
  | name named placed => exact whole (.name named placed) bound nofun
  | @call word open_ close name info tokens arguments named opens separated each closes placed ih =>
    refine whole (.call named opens separated each closes placed) bound ?_
    exact parts separated ⟨[word, open_], [close], by simp⟩ ih
  | boolean isValue placed => exact whole (.boolean isValue placed) bound nofun
  | integer isInteger unsigned same placed =>
    exact whole (.integer isInteger unsigned same placed) bound nofun
  | negative isSign isInteger signed same placed =>
    exact whole (.negative isSign isInteger signed same placed) bound nofun
  | @conditional if_ open_ close else_ open' close' info conditionTokens yesTokens noTokens
      condition yes no isIf ofCondition opens ofYes closes isElse opens' ofNo closes' placed
      conditionIh yesIh noIh =>
    refine whole (.conditional isIf ofCondition opens ofYes closes isElse opens' ofNo closes'
      placed) bound ?_
    refine forall_mem_cons.mpr ⟨?_, forall_mem_cons.mpr ⟨?_, forall_mem_singleton.mpr ?_⟩⟩
    · intro node below
      exact (conditionIh (Nat.le_refl _) node below).mono ⟨[if_], _, rfl⟩
    · intro node below
      exact (yesIh (Nat.le_refl _) node below).mono
        ⟨if_ :: (conditionTokens ++ [open_]), close :: else_ :: open' :: (noTokens ++ [close']),
          by simp⟩
    · intro node below
      exact (noIh (Nat.le_refl _) node below).mono
        ⟨if_ :: (conditionTokens ++ open_ :: (yesTokens ++ [close, else_, open'])), [close'],
          by simp⟩
  | @group open_ close tokens expression opens inner closes ih =>
    intro node below
    exact (ih (Nat.le_refl _) node below).mono ⟨[open_], [close], by simp⟩
  | @tuple open_ close info tokens elements opens pair separated each closes placed ih =>
    refine whole (.tuple opens pair separated each closes placed) bound ?_
    exact parts separated ⟨[open_], [close], by simp⟩ ih
  | operand inner ih => exact ih (Nat.le_of_succ_le bound)
  | @operation level leftTokens rightTokens token op left right info strength ofLeft isOp ofRight
      placed leftIh rightIh =>
    refine whole (.operation strength ofLeft isOp ofRight placed) bound ?_
    refine forall_mem_cons.mpr ⟨?_, forall_mem_singleton.mpr ?_⟩
    · intro node below
      exact (leftIh bound node below).mono ⟨[], _, rfl⟩
    · intro node below
      exact (rightIh (Nat.le_of_succ_le bound) node below).mono ⟨leftTokens ++ [token], [], by simp⟩

/-! ## Tokens of a span -/

theorem Covers.ends {first last : Token} (inner : List Token)
    (same : span = joined first.span last.span) : Covers (first :: (inner ++ [last])) span := by
  subst same
  constructor
  · rfl
  · rw [← cons_append, getLast?_append]
    rfl

theorem Covers.one (same : span = token.span) : Covers [token] span := by
  subst same
  exact ⟨rfl, rfl⟩

theorem Covers.join {first middle second : List Token} {left right : SourceSpan}
    (front : Covers first left) (back : Covers second right) :
    Covers (first ++ (middle ++ second)) (joined left right) := by
  cases first with
  | nil => cases front.1
  | cons token first =>
    cases second with
    | nil => cases back.2
    | cons other second =>
      refine ⟨front.1, ?_⟩
      rw [← append_assoc, getLast?_append_of_ne_nil _ (cons_ne_nil _ _)]
      exact back.2

/-- Tokens one after the other, all but the last of some length. -/
structure InOrder (whole : List Token) : Prop where
  apart : whole.Pairwise fun token next => token.span.stop.offset ≤ next.span.start.offset
  forward : ∀ token ∈ whole, token.span.start.offset ≤ token.span.stop.offset
  solid : ∀ token ∈ whole, token.kind ≠ .eof → token.span.start.offset < token.span.stop.offset

theorem Increasing.apart {cursor : Nat} (increasing : Increasing cursor tokens) :
    tokens.Pairwise fun token next => token.span.stop.offset ≤ next.span.start.offset := by
  induction tokens generalizing cursor with
  | nil => exact List.Pairwise.nil
  | cons token tokens ih =>
    exact pairwise_cons.mpr ⟨increasing.2.2.start_le, ih increasing.2.2⟩

theorem Increasing.length_text {cursor : Nat} (increasing : Increasing cursor tokens) :
    ∀ token ∈ tokens, token.span.start.offset + token.text.length = token.span.stop.offset := by
  induction tokens generalizing cursor with
  | nil => simp
  | cons first tokens ih =>
    exact forall_mem_cons.mpr ⟨increasing.2.1, ih increasing.2.2⟩

theorem lex_inOrder (text : SourceText) : InOrder (lex text).tokens := by
  have increasing := lex_increasing text
  refine ⟨increasing.apart, increasing.start_le_stop, ?_⟩
  intro token member more
  have nonempty := length_pos_iff.mpr (lexFrom_solid _ _ token member more)
  have length := increasing.length_text token member
  omega

/-- Tokens between two spans are those there. -/
theorem InOrder.between {whole before first middle second after : List Token}
    {left right : SourceSpan} (order : InOrder whole)
    (shape : whole = before ++ (first ++ (middle ++ (second ++ after)))) (front : Covers first left)
    (back : Covers second right) (member : token ∈ whole) (more : token.kind ≠ .eof) :
    token ∈ middle ↔ left.stop.offset ≤ token.span.start.offset ∧
      token.span.stop.offset ≤ right.start.offset := by
  obtain ⟨last, final, stop⟩ := Option.map_eq_some_iff.mp front.2
  obtain ⟨head, begins, start⟩ := Option.map_eq_some_iff.mp back.1
  obtain ⟨init, rfl⟩ := getLast?_eq_some_iff.mp final
  obtain ⟨rest, rfl⟩ := head?_eq_some_iff.mp begins
  have apart := order.apart
  have lastForward := order.forward last (by simp [shape])
  have headForward := order.forward head (by simp [shape])
  have solid := order.solid token member more
  rw [shape] at apart member
  rw [← stop, ← start]
  simp only [append_assoc, cons_append, nil_append, pairwise_append,
    pairwise_cons, mem_append, mem_cons] at apart member
  obtain ⟨-, ⟨-, ⟨lastBefore, -, ⟨headBefore, -⟩, middleBefore⟩, initBefore⟩, frontBefore⟩ := apart
  constructor
  · intro inside
    exact ⟨lastBefore token (.inl inside), middleBefore token inside head (.inl rfl)⟩
  · rintro ⟨behind, ahead⟩
    rcases member with member | member | rfl | member | rfl | member
    · have := frontBefore token member last (.inr (.inl rfl))
      omega
    · have := initBefore token member last (.inl rfl)
      omega
    · omega
    · exact member
    · omega
    · have := headBefore token member
      omega

/-! ## Parentheses around operands -/

/-- No parenthesis between the operands of an operation. -/
def Expr.Bared (whole : List Token) : Expr → Prop
  | .binary _ _ left right => ∀ token ∈ whole,
      left.span.stop.offset ≤ token.span.start.offset →
        token.span.stop.offset ≤ right.span.start.offset →
          token.kind ≠ .leftParen ∧ token.kind ≠ .rightParen
  | _ => True

instance (whole : List Token) (expression : Expr) : Decidable (expression.Bared whole) :=
  match expression with
  | .binary _ _ _ _ => List.decidableBAll _ _
  | .name _ _ | .boolean _ _ | .integer _ _ | .tuple _ _ | .call _ _ _ | .conditional _ _ _ _
  | .hole _ _ => .isTrue trivial

/-- Tokens that derive an expression, in parentheses. -/
structure Enclosure (opens inner closes : List Token) (expression : Expr) : Prop where
  same : opens.length = closes.length
  opening : ∀ token ∈ opens, token.kind = .leftParen
  closing : ∀ token ∈ closes, token.kind = .rightParen
  derives : Derives NodeInfo.Exact loosest inner expression
  covers : Covers inner expression.span

theorem Enclosure.bare {expression : Expr}
    (derives : Derives NodeInfo.Exact level tokens expression) (bound : level ≤ loosest)
    (covers : Covers tokens expression.span) :
    ∃ opens inner closes, tokens = opens ++ (inner ++ closes) ∧
      Enclosure opens inner closes expression :=
  ⟨[], tokens, [], by simp, rfl, nofun, nofun, derives.expression bound, covers⟩

/-- Operands in no parentheses have none between them. -/
theorem Enclosure.bared_iff {whole before after : List Token} (order : InOrder whole)
    {opens closes opens' inner' closes' : List Token} {info : NodeInfo} {op : BinaryOp}
    {left right : Expr}
    (shape : whole = before ++ (opens ++ (inner ++ closes) ++
      token :: (opens' ++ (inner' ++ closes'))) ++ after)
    (ofLeft : Enclosure opens inner closes left) (isOp : token.kind = op.lexeme.1)
    (ofRight : Enclosure opens' inner' closes' right) :
    (Expr.binary info op left right).Bared whole ↔ closes = [] ∧ opens' = [] := by
  have place : whole = (before ++ opens) ++ (inner ++ ((closes ++ token :: opens') ++
      (inner' ++ (closes' ++ after)))) := by simp [shape]
  have inside : ∀ other ∈ closes ++ token :: opens', other ∈ whole := by
    intro other member
    rw [place]
    simp only [mem_append]
    exact .inr (.inr (.inl (mem_append.mp member)))
  have between := fun other member more =>
    @InOrder.between other _ _ _ _ _ _ _ _ order place ofLeft.covers ofRight.covers member more
  constructor
  · intro bared
    constructor
    · refine eq_nil_iff_forall_not_mem.mpr ?_
      intro other member
      have isClose := ofLeft.closing other member
      have here : other ∈ closes ++ token :: opens' := mem_append_left _ member
      have stands := (between other (inside other here) (by rw [isClose]; decide)).mp here
      exact (bared other (inside other here) stands.1 stands.2).2 isClose
    · refine eq_nil_iff_forall_not_mem.mpr ?_
      intro other member
      have isOpen := ofRight.opening other member
      have here : other ∈ closes ++ token :: opens' := mem_append_right _ (mem_cons_of_mem _ member)
      have stands := (between other (inside other here) (by rw [isOpen]; decide)).mp here
      exact (bared other (inside other here) stands.1 stands.2).1 isOpen
  · rintro ⟨rfl, rfl⟩ other member behind ahead
    have plain : token.kind ≠ .leftParen ∧ token.kind ≠ .rightParen := by
      rw [isOp]
      cases op <;> decide
    constructor
    · intro isOpen
      have here := (between other member (by rw [isOpen]; decide)).mpr ⟨behind, ahead⟩
      obtain rfl := mem_singleton.mp here
      exact plain.1 isOpen
    · intro isClose
      have here := (between other member (by rw [isClose]; decide)).mpr ⟨behind, ahead⟩
      obtain rfl := mem_singleton.mp here
      exact plain.2 isClose

/-- Where operations are bare, an expression's tokens are its span's, in parentheses. -/
theorem Derives.enclosure {whole : List Token} (order : InOrder whole) {expression : Expr}
    (derives : Derives NodeInfo.Exact level tokens expression) (bound : level ≤ loosest)
    (part : tokens <:+: whole) (bared : ∀ node ∈ expression.nodes, node.Bared whole) :
    ∃ opens inner closes, tokens = opens ++ (inner ++ closes) ∧
      Enclosure opens inner closes expression := by
  induction derives with
  | hole isMark named placed =>
    exact Enclosure.bare (.hole isMark named placed) bound (Covers.ends [] placed)
  | name named placed => exact Enclosure.bare (.name named placed) bound (Covers.one placed)
  | call named opens separated each closes placed =>
    exact Enclosure.bare (.call named opens separated each closes placed) bound
      (Covers.ends (_ :: _) placed)
  | boolean isValue placed =>
    exact Enclosure.bare (.boolean isValue placed) bound (Covers.one placed)
  | integer isInteger unsigned same placed =>
    exact Enclosure.bare (.integer isInteger unsigned same placed) bound (Covers.one placed)
  | negative isSign isInteger signed same placed =>
    exact Enclosure.bare (.negative isSign isInteger signed same placed) bound
      (Covers.ends [] placed)
  | @conditional if_ open_ close else_ open' close' info conditionTokens yesTokens noTokens
      condition yes no isIf ofCondition opens ofYes closes isElse opens' ofNo closes' placed =>
    refine Enclosure.bare (.conditional isIf ofCondition opens ofYes closes isElse opens' ofNo
      closes' placed) bound ?_
    have covers := @Covers.ends (Expr.conditional info condition yes no).span if_ close'
      (conditionTokens ++ open_ :: (yesTokens ++ close :: else_ :: open' :: noTokens)) placed
    simpa using covers
  | @group open_ close tokens expression opens inner closes ih =>
    have inside : tokens <:+: open_ :: (tokens ++ [close]) := ⟨[open_], [close], by simp⟩
    obtain ⟨opens', inner', closes', rfl, found⟩ := ih (Nat.le_refl _) (inside.trans part) bared
    refine ⟨open_ :: opens', inner', closes' ++ [close], by simp, ?_, ?_, ?_, found.derives,
      found.covers⟩
    · rw [length_cons, length_append, found.same]
      rfl
    · exact forall_mem_cons.mpr ⟨opens, found.opening⟩
    · exact forall_mem_append.mpr ⟨found.closing, forall_mem_singleton.mpr closes⟩
  | tuple opens pair separated each closes placed =>
    exact Enclosure.bare (.tuple opens pair separated each closes placed) bound
      (Covers.ends _ placed)
  | operand inner ih => exact ih (Nat.le_of_succ_le bound) part bared
  | @operation level leftTokens rightTokens token op left right info strength ofLeft isOp ofRight
      placed leftIh rightIh =>
    rw [Expr.nodes] at bared
    have here := bared _ mem_cons_self
    have below := fun node member => bared node (mem_cons_of_mem _ member)
    have leftPart : leftTokens <:+: leftTokens ++ token :: rightTokens := ⟨[], _, rfl⟩
    have rightPart : rightTokens <:+: leftTokens ++ token :: rightTokens :=
      ⟨leftTokens ++ [token], [], by simp⟩
    obtain ⟨opens, inner, closes, rfl, first⟩ := leftIh bound (leftPart.trans part)
      fun node member => below node (mem_append_left _ member)
    obtain ⟨opens', inner', closes', rfl, second⟩ := rightIh (Nat.le_of_succ_le bound)
      (rightPart.trans part) fun node member => below node (mem_append_right _ member)
    obtain ⟨before, after, shape⟩ := part
    obtain ⟨rfl, rfl⟩ := (Enclosure.bared_iff order shape.symm first isOp second).mp here
    obtain rfl := eq_nil_of_length_eq_zero first.same
    obtain rfl := eq_nil_of_length_eq_zero second.same.symm
    simp only [append_nil, nil_append] at ofLeft ofRight ⊢
    refine Enclosure.bare (.operation strength ofLeft isOp ofRight placed) bound ?_
    have covers := @Covers.join _ [token] _ _ _ first.covers second.covers
    rwa [← show info.span = _ from placed] at covers

theorem Derives.operands {info : NodeInfo} {op : BinaryOp} {left right : Expr}
    (derives : Derives NodeInfo.Exact level tokens (.binary info op left right)) :
    ∃ first token second, first ++ token :: second <:+: tokens ∧
      Derives NodeInfo.Exact loosest first left ∧ token.kind = op.lexeme.1 ∧
      Derives NodeInfo.Exact loosest second right ∧ info.span = joined left.span right.span := by
  generalize shape : Expr.binary info op left right = expression at derives
  induction derives with
  | @group open_ close _ _ _ _ _ ih =>
    obtain ⟨first, token, second, part, found⟩ := ih shape
    exact ⟨first, token, second, part.trans ⟨[open_], [close], by simp⟩, found⟩
  | operand _ ih => exact ih shape
  | @operation level leftTokens rightTokens token op left right info strength ofLeft isOp ofRight
      placed =>
    cases shape
    have bound : level + 1 ≤ loosest := strength ▸ op.looseness_le
    exact ⟨leftTokens, token, rightTokens, infix_refl _, ofLeft.expression bound, isOp,
      ofRight.expression (Nat.le_of_succ_le bound), placed⟩
  | _ => cases shape

/-! ## Delimiters -/

/-- The text of its span parses to it, up to spans and numbers. -/
def Expr.Delimited (source : SourceText) (expression : Expr) : Prop :=
  ∃ found, parseExpression (expression.span.text source) = .ok found ∧
    found.strip = expression.strip

/-- All expressions of a document, with those inside them. -/
def Document.nodes (document : Document) : List Expr :=
  (Tree.expressions document).flatMap Expr.nodes

/-- What parts and commas have, the separated tokens have. -/
theorem Separated.forall {parts : List (List Token)} (separated : Separated parts tokens)
    {holds : Token → Prop} (commas : ∀ token : Token, token.kind = .comma → holds token)
    (each : ∀ part ∈ parts, ∀ token ∈ part, holds token) : ∀ token ∈ tokens, holds token := by
  induction separated with
  | nil => simp
  | last part => exact each part (mem_singleton_self _)
  | cons part isComma rest ih =>
    refine forall_mem_append.mpr ⟨each part mem_cons_self, ?_⟩
    exact forall_mem_cons.mpr ⟨commas _ isComma,
      ih fun other member => each other (mem_cons_of_mem _ member)⟩

/-- No derived token is the end of the file. -/
theorem Derives.more {expression : Expr} (derives : Derives places level tokens expression) :
    ∀ token ∈ tokens, token.kind ≠ .eof := by
  have kinds : ∀ {token : Token} {kind : TokenKind}, token.kind = kind → kind ≠ .eof →
      token.kind ≠ .eof := by
    rintro token kind rfl other
    exact other
  have word : ∀ {token : Token} {name : Identifier}, token.lexeme = name.lexeme →
      token.kind ≠ .eof := fun named => kinds (Token.kind_of_named named) (by decide)
  have commas : ∀ token : Token, token.kind = .comma → token.kind ≠ .eof :=
    fun token isComma => kinds isComma (by decide)
  induction derives with
  | hole isMark named => simpa using ⟨kinds isMark (by decide), word named⟩
  | name named => simpa using word named
  | call named opens separated _ closes _ ih =>
    have inner := separated.forall commas (forall_mem_map.mpr ih)
    simp only [forall_mem_cons, forall_mem_append]
    exact ⟨word named, kinds opens (by decide), inner, kinds closes (by decide), nofun⟩
  | @boolean _ value _ isValue => simpa using kinds isValue (by cases value <;> decide)
  | integer isInteger => simpa using kinds isInteger (by decide)
  | negative isSign isInteger =>
    simpa using ⟨kinds isSign (by decide), kinds isInteger (by decide)⟩
  | conditional isIf _ opens _ closes isElse opens' _ closes' _ condition yes no =>
    simp only [forall_mem_cons, forall_mem_append]
    exact ⟨kinds isIf (by decide), condition, kinds opens (by decide), yes,
      kinds closes (by decide), kinds isElse (by decide), kinds opens' (by decide), no,
      kinds closes' (by decide), nofun⟩
  | group opens _ closes inner =>
    simp only [forall_mem_cons, forall_mem_append]
    exact ⟨kinds opens (by decide), inner, kinds closes (by decide), nofun⟩
  | tuple opens _ separated _ closes _ ih =>
    have inner := separated.forall commas (forall_mem_map.mpr ih)
    simp only [forall_mem_cons, forall_mem_append]
    exact ⟨kinds opens (by decide), inner, kinds closes (by decide), nofun⟩
  | operand _ ih => exact ih
  | @operation level leftTokens rightTokens token op left right info _ _ isOp _ _ leftIh rightIh =>
    simp only [forall_mem_cons, forall_mem_append]
    exact ⟨leftIh, kinds isOp (by cases op <;> decide), rightIh⟩

/-- Tokens of a source are lexed again from the text of their span. -/
theorem lexes_part {before after : List Token}
    (shape : (lex source).tokens = before ++ (inner ++ after)) (covers : Covers inner span)
    (plain : ∀ token ∈ inner, token.kind ≠ .eof) :
    Lexes (span.text source) (lexemesOf inner) [] := by
  refine @lexFrom_span inner span (source.length + 1) {} [] source before after shape rfl ?_ covers
  refine forall_mem_append.mpr ⟨?_, plain⟩
  intro token member isLast
  -- The end of the file is the last token, and the span has tokens behind this one.
  obtain ⟨front, back, rfl⟩ := append_of_mem member
  have nothing := (lex_stream source).last front token (back ++ (inner ++ after))
    (by simp [shape]) isLast
  cases inner with
  | nil => cases covers.1
  | cons => simp at nothing

theorem Expr.Delimited.balanced {expression : Expr} (delimited : expression.Delimited source)
    (lexes : Lexes (expression.span.text source) (lexemesOf inner) []) :
    Balanced (sidesOf inner) := by
  obtain ⟨found, parsed, -⟩ := delimited
  obtain ⟨lexed, -⟩ := lex_of_lexes lexes rfl
  rcases parseExpression_derives (expression.span.text source) with
    ⟨other, tokens, -, ⟨last, -, whole⟩, derives⟩ | ⟨refusal, refused⟩
  · have same : lexemesOf tokens ++ [last.lexeme] = lexemesOf inner ++ [(.eof, [])] := by
      rw [← lexed, whole]
      simp [Tokens.lexemes, lexemesOf]
    rw [← sidesOf_congr (append_inj_left' same rfl)]
    exact derives.balanced
  · cases parsed.symm.trans refused

theorem Expr.Delimited.of_derives {expression : Expr}
    (derives : Derives NodeInfo.Exact loosest inner expression)
    (lexes : Lexes (expression.span.text source) (lexemesOf inner) []) :
    expression.Delimited source := by
  obtain ⟨lexed, complete⟩ := lex_of_lexes lexes rfl
  refine parseExpression_of_reads lexed rfl complete ?_
  intro fuel enough
  refine derives.read.1.expr rfl rfl ?_
  rw [length_lexemesOf] at enough
  exact enough

/-- The innermost operation that is not bare is not delimited. -/
theorem Expr.Delimited.bared {node : Expr} (slice : Slice (lex source).tokens node)
    (below : ∀ element ∈ node.elements, ∀ inner ∈ element.nodes, inner.Bared (lex source).tokens)
    (delimited : node.Delimited source) : node.Bared (lex source).tokens := by
  cases node with
  | binary info op left right =>
    obtain ⟨front, taken, back, shape, derives⟩ := slice
    obtain ⟨first, token, second, part, ofLeft, isOp, ofRight, placed⟩ := derives.operands
    have order := lex_inOrder source
    have part : first ++ token :: second <:+: (lex source).tokens :=
      part.trans ⟨front, back, shape.symm⟩
    have leftPart : first <:+: first ++ token :: second := ⟨[], _, rfl⟩
    have rightPart : second <:+: first ++ token :: second := ⟨first ++ [token], [], by simp⟩
    obtain ⟨opens, inner, closes, rfl, onLeft⟩ := ofLeft.enclosure order (Nat.le_refl _)
      (leftPart.trans part) (below left (by simp [Expr.elements]))
    obtain ⟨opens', inner', closes', rfl, onRight⟩ := ofRight.enclosure order (Nat.le_refl _)
      (rightPart.trans part) (below right (by simp [Expr.elements]))
    obtain ⟨before, after, shape⟩ := part
    refine (Enclosure.bared_iff order shape.symm onLeft isOp onRight).mpr ?_
    -- The tokens of the span lack the outer parentheses of both operands.
    have covers : Covers (inner ++ ((closes ++ token :: opens') ++ inner'))
        (Expr.binary info op left right).span := by
      have joint := @Covers.join _ (closes ++ token :: opens') _ _ _ onLeft.covers onRight.covers
      rwa [← placed] at joint
    have lexes := @lexes_part _ _ source (before ++ opens) (closes' ++ after)
      (by simp [← shape]) covers (by
        have leftMore := ofLeft.more
        have rightMore := ofRight.more
        simp only [forall_mem_append, forall_mem_cons] at leftMore rightMore ⊢
        refine ⟨leftMore.2.1, ⟨leftMore.2.2, ?_, rightMore.1⟩, rightMore.2.1⟩
        rw [isOp]
        cases op <;> decide)
    have balanced := delimited.balanced lexes
    simp only [sidesOf_append, sidesOf_cons, append_assoc] at balanced
    cases closes with
    | cons close closes =>
      rw [sidesOf_cons, onLeft.closing close mem_cons_self] at balanced
      exact absurd balanced onLeft.derives.balanced.no_close
    | nil =>
      refine ⟨rfl, ?_⟩
      by_contra some
      have isOperator : token.kind.side = .neither := by
        rw [isOp]
        cases op <;> rfl
      have opening : ∀ side ∈ sidesOf opens', side = .opens := by
        refine forall_mem_map.mpr ?_
        intro other member
        rw [onRight.opening other member]
        rfl
      rw [sidesOf_nil, nil_append, cons_append, isOperator] at balanced
      exact onLeft.derives.balanced.no_open opening (by simpa [sidesOf] using some)
        onRight.derives.balanced balanced
  | _ => trivial

theorem parse_slices {source : SourceText} {document : Document}
    (parsed : parse source = .ok document) :
    ∀ node ∈ document.nodes, Slice (lex source).tokens node := by
  obtain ⟨-, -, -, -, slices⟩ := parse_planted parsed
  intro node member
  obtain ⟨expression, top, inside⟩ := mem_flatMap.mp member
  obtain ⟨front, taken, back, shape, derives⟩ := slices expression top
  exact (derives.slice (Nat.le_refl _) node inside).mono ⟨front, back, shape.symm⟩

/-- Spans delimit nodes exactly when no operand of an operation is in parentheses. -/
theorem parse_delimited_iff {source : SourceText} {document : Document}
    (parsed : parse source = .ok document) :
    (∀ node ∈ document.nodes, node.Delimited source) ↔
      ∀ node ∈ document.nodes, node.Bared (lex source).tokens := by
  have order := lex_inOrder source
  have sliced := parse_slices parsed
  have deeper : ∀ node ∈ document.nodes, ∀ inner ∈ node.nodes, inner ∈ document.nodes := by
    intro node member inner below
    obtain ⟨expression, top, inside⟩ := mem_flatMap.mp member
    exact mem_flatMap.mpr ⟨expression, top, Expr.nodes_trans below expression inside⟩
  constructor
  · intro delimited node member
    by_contra wrong
    obtain ⟨inner, inside, fails, below⟩ := @Expr.innermost
      (fun node => node.Bared (lex source).tokens) node fun all =>
        wrong (all node (by rw [Expr.nodes_eq]; exact mem_cons_self))
    have found := deeper node member inner inside
    exact fails (Expr.Delimited.bared (sliced inner found) below (delimited inner found))
  · intro bared node member
    obtain ⟨front, taken, back, shape, derives⟩ := sliced node member
    obtain ⟨opens, inner, closes, rfl, enclosed⟩ := derives.enclosure order (Nat.le_refl _)
      ⟨front, back, shape.symm⟩ fun below inside => bared below (deeper node member below inside)
    exact .of_derives enclosed.derives (@lexes_part _ _ source (front ++ opens)
      (closes ++ back) (by simp [shape]) enclosed.covers enclosed.derives.more)

/-- An operation with an operand in parentheses. -/
def groupedSource : SourceText := "counterexample c \x7b x: Int = (1) + 2; \x7d".toList

/-- Some span of a document delimits no expression. -/
def undelimited (source : SourceText) : Bool :=
  match parse source with
  | .ok document => document.nodes.any fun node =>
      !(parseExpression (node.span.text source)).isOk
  | .error _ => false

/-- The span of the sum is `1) + 2`, no expression. -/
theorem groupedSource_undelimited : ∃ document, parse groupedSource = .ok document ∧
    ∃ node ∈ document.nodes, ¬ node.Delimited groupedSource := by
  have fails : undelimited groupedSource = true := by decide +kernel
  unfold undelimited at fails
  cases parsed : parse groupedSource with
  | error failure =>
    rw [parsed] at fails
    cases fails
  | ok document =>
    rw [parsed] at fails
    obtain ⟨node, member, wrong⟩ := any_eq_true.mp fails
    refine ⟨document, rfl, node, member, ?_⟩
    rintro ⟨found, ok, -⟩
    rw [ok] at wrong
    cases wrong

/-- Operations without parentheses around their operands. -/
def bareSource : SourceText := "counterexample c \x7b x: Int = f(1 + 2, (3)) - 4; \x7d".toList

/-- Every node of the parsed document is bared. -/
def bare (source : SourceText) : Bool :=
  match parse source with
  | .ok document => document.nodes.all fun node => decide (node.Bared (lex source).tokens)
  | .error _ => false

/-- Parentheses of a call and an argument do not matter. -/
theorem bareSource_delimited : ∃ document, parse bareSource = .ok document ∧
    ∀ node ∈ document.nodes, node.Delimited bareSource := by
  have holds : bare bareSource = true := by decide +kernel
  unfold bare at holds
  cases parsed : parse bareSource with
  | error failure =>
    rw [parsed] at holds
    cases holds
  | ok document =>
    rw [parsed] at holds
    refine ⟨document, rfl, (parse_delimited_iff parsed).mpr ?_⟩
    intro node member
    exact of_decide_eq_true (all_eq_true.mp holds node member)

end Fine.Syntax
