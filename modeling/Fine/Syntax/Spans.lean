import Fine.Syntax.Accepted

/-!
# Places and numbers of nodes

Every expression, arbitrary field and declaration is a node with a number and a span. Parsers are
followed with what they have built placed between the first token and the current one.
-/

namespace Fine.Syntax

open Fine.Fallible Fine.Intervals List

variable {α β : Type}

/-! ## Expressions of nodes -/

/-- Nodes that carry expressions. -/
class Tree (α : Type) where
  /-- The expressions in the order of the source. -/
  expressions : α → List Expr

namespace Tree

instance : Tree Expr := ⟨fun expression => [expression]⟩

instance [Tree α] : Tree (List α) := ⟨fun nodes => nodes.flatMap expressions⟩

instance [Tree α] : Tree (Option α) := ⟨fun node => (node.map expressions).getD []⟩

instance : Tree EnumDecl := ⟨fun _ => []⟩

instance : Tree TableEntry := ⟨fun entry => [entry.key, entry.value]⟩

instance : Tree TableLiteral :=
  ⟨fun table => table.defaultValue :: expressions table.entries⟩

instance : Tree LetDecl := ⟨fun declaration => expressions declaration.value⟩

instance : Tree ModelDecl := ⟨fun declaration => expressions declaration.value⟩

instance : Tree NamedArgument := ⟨fun argument => [argument.value]⟩

instance : Tree SolveDecl :=
  ⟨fun declaration => expressions declaration.takes ++ [declaration.gives]⟩

instance : Tree ViewDecl :=
  ⟨fun declaration => expressions declaration.requirements ++ expressions declaration.witness⟩

instance : Tree ArbitraryPremise :=
  ⟨fun field => expressions field.viewArguments ++ expressions field.premises⟩

instance : Tree MatchArm := ⟨fun arm => [arm.value]⟩

instance : Tree FunctionDecl :=
  ⟨fun declaration => declaration.scrutinee :: expressions declaration.arms⟩

instance : Tree SynthDecl :=
  ⟨fun declaration => expressions declaration.scrutinee ++ expressions declaration.arms ++
    expressions declaration.ensures⟩

instance : Tree CheckDecl :=
  ⟨fun declaration => expressions declaration.predicateInduction ++
    expressions declaration.assumes ++ expressions declaration.ensures⟩

instance : Tree CounterexampleEntry := ⟨fun entry => [entry.value]⟩

instance : Tree CounterexampleDecl := ⟨fun declaration => expressions declaration.entries⟩

instance : Tree PredicateConstructor :=
  ⟨fun constructor => expressions constructor.premises ++
    expressions constructor.arbitraryPremises ++ [constructor.result]⟩

instance : Tree PredicateDecl := ⟨fun declaration => expressions declaration.constructors⟩

instance : Tree Declaration where
  expressions
    | .enum declaration => expressions declaration
    | .letBinding declaration => expressions declaration
    | .model declaration => expressions declaration
    | .solve declaration => expressions declaration
    | .view declaration => expressions declaration
    | .predicate declaration => expressions declaration
    | .function declaration => expressions declaration
    | .synth declaration => expressions declaration
    | .check declaration => expressions declaration
    | .counterexample declaration => expressions declaration

instance : Tree Document := ⟨fun document => expressions document.declarations⟩

end Tree

/-! ## Expressions -/

/-- Tokens of some length in a row in a stretch. -/
def Spread : Nat → List Token → Nat → Prop
  | low, [], high => low ≤ high
  | low, token :: tokens, high => low ≤ token.span.start.offset ∧
      token.span.start.offset < token.span.stop.offset ∧ Spread token.span.stop.offset tokens high

variable {high : Nat} {tokens : List Token}

variable {token : Token} {expression : Expr} {cursor : Nat}

namespace Spread

theorem forward {low : Nat} (spread : Spread low tokens high) : low ≤ high := by
  induction tokens generalizing low with
  | nil => exact spread
  | cons token tokens ih =>
    obtain ⟨start, solid, rest⟩ := spread
    have := ih rest
    omega

theorem append_iff {low : Nat} {first second : List Token} :
    Spread low (first ++ second) high ↔
      ∃ middle, Spread low first middle ∧ Spread middle second high := by
  induction first generalizing low with
  | nil =>
    constructor
    · intro spread
      exact ⟨low, Nat.le_refl _, spread⟩
    · rintro ⟨middle, before, spread⟩
      cases second with
      | nil => exact Nat.le_trans before spread
      | cons token second => exact ⟨Nat.le_trans before spread.1, spread.2⟩
  | cons token first ih =>
    constructor
    · rintro ⟨start, solid, rest⟩
      obtain ⟨middle, left, right⟩ := ih.mp rest
      exact ⟨middle, ⟨start, solid, left⟩, right⟩
    · rintro ⟨middle, ⟨start, solid, left⟩, right⟩
      exact ⟨start, solid, ih.mpr ⟨middle, left, right⟩⟩

theorem single {low : Nat} (spread : Spread low [token] high) :
    low ≤ token.span.start.offset ∧ token.span.start.offset < token.span.stop.offset ∧
      token.span.stop.offset ≤ high := spread

end Spread

/-- The expression is well placed wherever its tokens are. -/
def PlacedBy (tokens : List Token) (expression : Expr) : Prop :=
  ∀ low high, Spread low tokens high → Placed low high [expression.tree]

theorem Separated.placed {parts : List (List Token × Expr)}
    (separated : Separated (parts.map Prod.fst) tokens)
    (each : ∀ part ∈ parts, PlacedBy part.1 part.2) {low : Nat} (spread : Spread low tokens high) :
    Placed low high ((parts.map Prod.snd).map Expr.tree) := by
  induction parts generalizing tokens low with
  | nil =>
    cases separated
    exact Placed.nil spread
  | cons part parts ih =>
    have head := each part mem_cons_self
    generalize shape : (part :: parts).map Prod.fst = lists at separated
    cases separated with
    | nil => cases shape
    | last only =>
      obtain ⟨rfl, none⟩ := List.cons.inj shape
      obtain rfl := map_eq_nil_iff.mp none
      exact head low high spread
    | cons front isComma following =>
      obtain ⟨rfl, rfl⟩ := List.cons.inj shape
      obtain ⟨middle, left, start, solid, rest⟩ := Spread.append_iff.mp spread
      have tail := ih following (fun other member => each other (mem_cons_of_mem _ member)) rest
      exact (head low middle left).append (by omega) tail

theorem Expr.label_tree (expression : Expr) : expression.tree.label = expression.info.label := by
  rw [Expr.tree_eq]
  rfl

/-- A node around subexpressions that stand between its ends. -/
theorem Expr.placed {low inner outer : Nat}
    (children : Placed inner outer (expression.elements.map Expr.tree))
    (left : low ≤ expression.span.start.offset) (start : expression.span.start.offset ≤ inner)
    (stop : outer ≤ expression.span.stop.offset) (right : expression.span.stop.offset ≤ high)
    (nonempty : expression.span.start.offset < expression.span.stop.offset) :
    Placed low high [expression.tree] := by
  rw [Expr.tree_eq]
  refine (children.widen (Nat.le_trans left start) (Nat.le_trans stop right)).node left right
    nonempty ?_
  intro tree member
  have bounds := children.inside tree member
  exact ⟨Nat.le_trans start bounds.1, Nat.le_trans bounds.2 stop⟩

theorem Expr.placed_leaf (leaf : expression.elements = []) {low : Nat}
    (left : low ≤ expression.span.start.offset) (right : expression.span.stop.offset ≤ high)
    (nonempty : expression.span.start.offset < expression.span.stop.offset) :
    Placed low high [expression.tree] := by
  refine Expr.placed ?_ left (Nat.le_refl _) (Nat.le_of_lt nonempty) right nonempty
  rw [leaf]
  exact Placed.nil (Nat.le_refl _)

/-- What is derived with exact spans is well placed. -/
theorem Derives.placed {level : Nat} (derives : Derives NodeInfo.Exact level tokens expression) :
    PlacedBy tokens expression := by
  induction derives with
  | @hole mark word name info isMark named placed =>
    rintro low high ⟨before, solid, between, solid', after⟩
    obtain ⟨span, number⟩ := info
    subst placed
    refine Expr.placed_leaf rfl before after ?_
    show mark.span.start.offset < word.span.stop.offset
    omega
  | @name word name info named placed | @boolean word value info isValue placed
  | @integer digits literal info isInteger unsigned same placed =>
    rintro low high ⟨before, solid, after⟩
    obtain ⟨span, number⟩ := info
    subst placed
    exact Expr.placed_leaf rfl before after solid
  | @call word open_ close name info tokens arguments named opens separated each closes placed ih =>
    rintro low high ⟨before, solid, between, solid', spread⟩
    obtain ⟨middle, inner, last⟩ := Spread.append_iff.mp spread
    obtain ⟨after, solid'', finish⟩ := last.single
    obtain ⟨span, number⟩ := info
    subst placed
    have forward := inner.forward
    refine Expr.placed (separated.placed ih inner) before ?_ ?_ finish ?_
    · show word.span.start.offset ≤ _
      omega
    · show _ ≤ close.span.stop.offset
      omega
    · show word.span.start.offset < close.span.stop.offset
      omega
  | @negative sign digits literal info isSign isInteger signed same placed =>
    rintro low high ⟨before, solid, between, solid', after⟩
    obtain ⟨span, number⟩ := info
    subst placed
    refine Expr.placed_leaf rfl before after ?_
    show sign.span.start.offset < digits.span.stop.offset
    omega
  | @conditional if_ open_ close else_ open' close' info conditionTokens yesTokens noTokens condition
      yes no isIf _ opens _ closes isElse opens' _ closes' placed conditionIh yesIh noIh =>
    rintro low high ⟨before, solid, spread⟩
    obtain ⟨place₁, first, open₁, solid₁, spread⟩ := Spread.append_iff.mp spread
    obtain ⟨place₂, second, close₂, solid₂, else₂, solid₃, open₂, solid₄, spread⟩ :=
      Spread.append_iff.mp spread
    obtain ⟨place₃, third, last⟩ := Spread.append_iff.mp spread
    obtain ⟨after, solid₅, finish⟩ := last.single
    obtain ⟨span, number⟩ := info
    subst placed
    have forward₁ := first.forward
    have forward₂ := second.forward
    have forward₃ := third.forward
    have children := (conditionIh _ _ first).append (by omega)
      ((yesIh _ _ second).append (by omega) (noIh _ _ third))
    refine Expr.placed children before ?_ ?_ finish ?_
    · exact Nat.le_of_lt solid
    · show _ ≤ close'.span.stop.offset
      omega
    · show if_.span.start.offset < close'.span.stop.offset
      omega
  | group opens _ closes inner =>
    rintro low high ⟨before, solid, spread⟩
    obtain ⟨middle, between, last⟩ := Spread.append_iff.mp spread
    obtain ⟨after, solid', finish⟩ := last.single
    exact (inner _ _ between).widen (by omega) (by omega)
  | @tuple open_ close info tokens elements opens pair separated each closes placed ih =>
    rintro low high ⟨before, solid, spread⟩
    obtain ⟨middle, inner, last⟩ := Spread.append_iff.mp spread
    obtain ⟨after, solid', finish⟩ := last.single
    obtain ⟨span, number⟩ := info
    subst placed
    have forward := inner.forward
    refine Expr.placed (separated.placed ih inner) before (Nat.le_of_lt solid) ?_ finish ?_
    · show _ ≤ close.span.stop.offset
      omega
    · show open_.span.start.offset < close.span.stop.offset
      omega
  | operand _ ih => exact ih
  | @operation level leftTokens rightTokens token op left right info strength _ isOp _ placed leftIh
      rightIh =>
    intro low high spread
    obtain ⟨middle, before, start, solid, after⟩ := Spread.append_iff.mp spread
    have leftPlaced := leftIh _ _ before
    have rightPlaced := rightIh _ _ after
    obtain ⟨low_left, left_solid, left_middle⟩ := leftPlaced.single
    obtain ⟨middle_right, right_solid, right_high⟩ := rightPlaced.single
    rw [Expr.label_tree] at low_left left_solid left_middle middle_right right_solid right_high
    obtain ⟨span, number⟩ := info
    subst placed
    have ordered : left.info.label.start < right.info.label.stop := by omega
    rw [Expr.tree_eq]
    refine (leftPlaced.append (by omega) rightPlaced).node low_left right_high ordered ?_
    intro tree member
    simp only [cons_append, nil_append, mem_cons, not_mem_nil, or_false] at member
    rcases member with rfl | rfl
    · rw [Expr.label_tree]
      exact ⟨Nat.le_refl _, show left.info.label.stop ≤ right.info.label.stop by omega⟩
    · rw [Expr.label_tree]
      exact ⟨show left.info.label.start ≤ right.info.label.start by omega, Nat.le_refl _⟩

/-! ## Trees of a document -/

/-- An arbitrary field is a node around its expressions. -/
def ArbitraryPremise.tree (field : ArbitraryPremise) : Rose :=
  .node field.info.label ((field.viewArguments ++ field.premises).map Expr.tree)

/-- Trees of a table literal. -/
def TableLiteral.forest (table : TableLiteral) : List Rose :=
  table.defaultValue.tree :: table.entries.flatMap fun entry => [entry.key.tree, entry.value.tree]

def PredicateConstructor.forest (constructor : PredicateConstructor) : List Rose :=
  constructor.premises.map Expr.tree ++ constructor.arbitraryPremises.map ArbitraryPremise.tree ++
    [constructor.result.tree]

def Declaration.info : Declaration → NodeInfo
  | .enum declaration => declaration.info
  | .letBinding declaration => declaration.info
  | .model declaration => declaration.info
  | .solve declaration => declaration.info
  | .view declaration => declaration.info
  | .predicate declaration => declaration.info
  | .function declaration => declaration.info
  | .synth declaration => declaration.info
  | .check declaration => declaration.info
  | .counterexample declaration => declaration.info

def Declaration.forest : Declaration → List Rose
  | .enum _ => []
  | .letBinding declaration => declaration.value.forest
  | .model declaration => (declaration.value.map TableLiteral.forest).getD []
  | .solve declaration =>
    (declaration.takes.map fun argument => argument.value.tree) ++ [declaration.gives.tree]
  | .view declaration =>
    declaration.requirements.map Expr.tree ++ declaration.witness.toList.map Expr.tree
  | .predicate declaration => declaration.constructors.flatMap PredicateConstructor.forest
  | .function declaration =>
    declaration.scrutinee.tree :: declaration.arms.map fun arm => arm.value.tree
  | .synth declaration => declaration.scrutinee.toList.map Expr.tree ++
    (declaration.arms.map fun arm => arm.value.tree) ++ declaration.ensures.map Expr.tree
  | .check declaration => declaration.predicateInduction.toList.map Expr.tree ++
    declaration.assumes.map Expr.tree ++ declaration.ensures.map Expr.tree
  | .counterexample declaration => declaration.entries.map fun entry => entry.value.tree

/-- A node around expressions and arbitrary fields. -/
def Declaration.tree (declaration : Declaration) : Rose :=
  .node declaration.info.label declaration.forest

def Document.forest (document : Document) : List Rose :=
  document.declarations.map Declaration.tree

/-! ## Following the parsers of declarations -/

def ParserState.here (state : ParserState) : Nat := state.current.span.start.offset

/-- A stream in which tokens have some length and stand one behind the other. -/
structure Source where
  whole : List Token
  refusal : Option ParseError
  stream : Stream whole refusal
  ordered : ∀ front token next later, whole = front ++ token :: next :: later →
    token.span.start.offset < token.span.stop.offset ∧
      token.span.stop.offset ≤ next.span.start.offset

/-- The expression is derived, with exact spans, from tokens of the source in a row. -/
def Slice (whole : List Token) (expression : Expr) : Prop :=
  ∃ front taken back, whole = front ++ taken ++ back ∧
    Derives NodeInfo.Exact loosest taken expression

/-- Trees were built up to here, whose expressions are derived. -/
structure Spot (source : Source) (bound low first : Nat) (forest : List Rose) (seen : List Expr)
    (state : ParserState) : Prop where
  standing : At source.whole source.refusal state
  room : state.tokens.length < bound
  placed : Placed low state.here forest
  numbered : Numbered first state.nextNodeId (numbersOf forest)
  written : ∀ expression ∈ seen, Slice source.whole expression

/-- One token was passed. -/
structure Passed (state later : ParserState) : Prop where
  shorter : later.tokens.length + 1 = state.tokens.length
  solid : state.here < state.current.span.stop.offset
  behind : state.current.span.stop.offset ≤ later.here

section Declarations

variable {source : Source} {bound low first : Nat}
  {forest : List Rose} {seen : List Expr} {state later : ParserState}

theorem Stepped.passed (standing : At source.whole source.refusal state)
    (stepped : Stepped source.whole source.refusal state later) : Passed state later := by
  obtain ⟨front, suffix⟩ := standing.suffix
  have shape : source.whole = front ++ state.current :: later.current :: later.rest := by
    rw [← suffix, stepped.tokens]
    rfl
  have places := source.ordered _ _ _ _ shape
  exact ⟨by rw [stepped.tokens]; rfl, places.1, places.2⟩

theorem spread_taken {taken : List Token} {low : Nat}
    {behind : List Token} (suffix : taken ++ later.tokens <:+ source.whole)
    (shape : taken ++ later.tokens = behind)
    (start : ∀ token ∈ behind.head?, low ≤ token.span.start.offset) :
    Spread low taken later.here := by
  induction taken generalizing low behind with
  | nil =>
    subst shape
    exact start later.current rfl
  | cons token taken ih =>
    subst shape
    obtain ⟨front, split⟩ := suffix
    obtain ⟨next, others, rest⟩ : ∃ next others, taken ++ later.tokens = next :: others := by
      cases taken with
      | nil | cons next others => exact ⟨_, _, rfl⟩
    have places := source.ordered front token next others (by
      rw [← split, cons_append, rest])
    refine ⟨start token rfl, places.1, ?_⟩
    refine ih ⟨front ++ [token], by rw [← split]; simp⟩ rest ?_
    intro other member
    cases member
    exact places.2

theorem Spot.begin (standing : At source.whole source.refusal state) :
    Spot source (state.tokens.length + 1) state.here state.nextNodeId [] [] state :=
  ⟨standing, Nat.lt_succ_self _, Placed.nil (Nat.le_refl _), Numbered.nil _, by simp⟩

variable {bound' : Nat} {forest' : List Rose} {seen' : List Expr} {message : String}
  {opening : SourceSpan} {rest : α → Parser β} {yes no : Parser β} {item : Parser α}

theorem Spot.join (spot : Spot source bound low first forest seen state)
    (next : Spot source bound' state.here state.nextNodeId forest' seen' later)
    (room : later.tokens.length < bound) :
    Spot source bound low first (forest ++ forest') (seen ++ seen') later := by
  refine ⟨next.standing, room, spot.placed.append (Nat.le_refl _) next.placed, ?_, ?_⟩
  · rw [numbersOf_append]
    exact spot.numbered.append next.numbered
  · intro expression member
    rcases mem_append.mp member with before | after
    · exact spot.written expression before
    · exact next.written expression after

theorem Spot.perm (spot : Spot source bound low first forest seen state)
    (perm : forest.Perm forest') (fewer : ∀ expression ∈ seen', expression ∈ seen) :
    Spot source bound low first forest' seen' state :=
  ⟨spot.standing, spot.room, spot.placed.perm perm,
    spot.numbered.perm ((Rose.nodesAll_perm perm).map _),
    fun expression member => spot.written expression (fewer expression member)⟩

/-- The parser builds its value's forest, with so many tokens. -/
def Plants (source : Source) (limit size : Nat) (parser : Parser α)
    (forest : α → List Rose) (seen : α → List Expr) : Prop :=
  ∀ state, At source.whole source.refusal state → state.tokens.length < limit →
    Goes state parser fun value later =>
      Spot source (state.tokens.length + 1 - size) state.here state.nextNodeId (forest value)
        (seen value) later

variable {parser : Parser α} {next : α → List Rose} {more : α → List Expr}

namespace Spot

variable (spot : Spot source bound low first forest seen state)

include spot
theorem grow {limit size : Nat}
    (plants : Plants source limit size parser next more) (enough : bound ≤ limit) :
    Goes state parser fun value later =>
      Spot source bound low first (forest ++ next value) (seen ++ more value) later ∧
        later.tokens.length + size ≤ state.tokens.length := by
  have room := spot.room
  apply (plants state spot.standing (by omega)).imp
  intro value later grown
  have fewer := grown.room
  exact ⟨spot.join grown (by omega), by omega⟩

theorem step (stepped : Stepped source.whole source.refusal state later) :
    Spot source bound low first forest seen later := by
  have passed := stepped.passed spot.standing
  have forward : state.here ≤ later.here := by
    have solid := passed.solid
    have behind := passed.behind
    omega
  refine ⟨stepped.standing, ?_, spot.placed.widen (Nat.le_refl _) forward, ?_, spot.written⟩
  · have shorter := passed.shorter
    have room := spot.room
    omega
  · rw [stepped.number]
    exact spot.numbered

theorem take {kind : TokenKind}
    {context : String} (more : kind ≠ .eof) :
    Goes state (Syntax.take kind context) fun token later => token = state.current ∧
      Spot source bound low first forest seen later ∧ Passed state later := by
  apply (Goes.take source.stream spot.standing more).imp
  rintro token later ⟨same, -, stepped⟩
  exact ⟨same, spot.step stepped, stepped.passed spot.standing⟩

theorem takeIdentifier {context : String} :
    Goes state (Syntax.takeIdentifier context) fun _ later =>
      Spot source bound low first forest seen later ∧ Passed state later := by
  apply (Goes.takeIdentifier source.stream spot.standing).imp
  rintro name later ⟨-, -, stepped⟩
  exact ⟨spot.step stepped, stepped.passed spot.standing⟩

theorem accept {kind : TokenKind}
    (more : kind ≠ .eof) {next : Bool → Parser β} {good : β → ParserState → Prop}
    (yes : ∀ later, Spot source bound low first forest seen later → Passed state later →
      Goes later (next true) good)
    (no : state.current.kind ≠ kind → Goes state (next false) good) :
    Goes state (Syntax.accept kind >>= next) good :=
  Goes.accept source.stream spot.standing more (fun later _ stepped => yes later (spot.step stepped)
      (stepped.passed spot.standing)) no

theorem number {span : SourceSpan} (start : span.start.offset = low)
    (inside : ∀ tree ∈ forest, tree.label.stop ≤ span.stop.offset)
    (nonempty : low < span.stop.offset) (behind : span.stop.offset ≤ state.here) :
    Goes state (identified span) fun info later =>
      Spot source bound low first [.node info.label forest] seen later ∧
        later.tokens = state.tokens := by
  refine ⟨⟨⟨spot.standing.suffix, spot.standing.refused⟩, spot.room, ?_, ?_, spot.written⟩, rfl⟩
  · refine spot.placed.node (Nat.le_of_eq start.symm) behind (by rw [← start] at nonempty; exact
      nonempty) ?_
    intro tree member
    refine ⟨?_, inside tree member⟩
    exact Nat.le_trans (Nat.le_of_eq start) (spot.placed.inside tree member).1
  · have numbers : numbersOf [Rose.node (NodeInfo.label ⟨span, state.nextNodeId⟩) forest] =
        state.nextNodeId :: numbersOf forest := by
      simp [numbersOf, Rose.nodesAll, Rose.nodes, Rose.label, NodeInfo.label]
    rw [numbers]
    exact spot.numbered.cons

end Spot

def Still (check : Parser Unit) : Prop :=
  ∀ state, Goes state check fun _ later => later = state

theorem nonempty_still {condition : Bool} : Still (nonempty condition message) := by
  intro state
  unfold nonempty
  cases condition with
  | true => exact Goes.pure rfl
  | false => exact Goes.fail

theorem Spot.last (spot : Spot source bound low first forest seen state) {kind : TokenKind}
    {context : String} (more : kind ≠ .eof) (start : opening.start.offset = low) :
    Goes state (Syntax.take kind context) fun close later =>
      Goes later (identified (joined opening close.span)) fun info final =>
        Spot source bound low first [.node info.label forest] seen final := by
  apply (spot.take more).imp
  rintro _ s₁ ⟨rfl, spot₁, passed⟩
  have solid := passed.solid
  have forward := spot.placed.forward
  have numbered := @Spot.number source bound low first forest seen s₁ spot₁
    (joined opening state.current.span) start (fun tree member =>
      Nat.le_trans (spot.placed.inside tree member).2 (Nat.le_of_lt solid))
    (Nat.lt_of_le_of_lt forward solid) passed.behind
  exact numbered.imp fun _ _ holds => holds.1

/-! ## One part of a parser after the other -/

variable {fuel limit size : Nat}

def Bare (source : Source) (limit size : Nat) (parser : Parser α) :
    Prop := Plants source limit size parser (fun _ => []) fun _ => []

theorem Spot.rebound (spot : Spot source bound low first forest seen state)
    (room : state.tokens.length < bound') : Spot source bound' low first forest seen state :=
  ⟨spot.standing, room, spot.placed, spot.numbered, spot.written⟩

/-- From behind the forest the parser goes on to its value's. -/
def Leads (source : Source) (bound low first : Nat)
    (forest : List Rose) (seen : List Expr) (parser : Parser α) (trees : α → List Rose)
    (all : α → List Expr) : Prop :=
  ∀ state, Spot source bound low first forest seen state →
    Goes state parser fun value later =>
      Spot source bound low first (trees value) (all value) later

namespace Leads

variable {trees : β → List Rose} {all : β → List Expr} {kind : TokenKind} {context : String}

theorem pure {value : β} (built : trees value = forest) (passed : all value = seen) :
    Leads source bound low first forest seen (Pure.pure value) trees all := by
  intro state spot
  subst built passed
  exact Goes.pure spot

theorem regroup {value : β} (perm : forest.Perm (trees value))
    (fewer : ∀ expression ∈ all value, expression ∈ seen) :
    Leads source bound low first forest seen (Pure.pure value) trees all :=
  fun _ spot => Goes.pure (spot.perm perm fewer)

theorem fail : Leads source bound low first forest seen
    (Syntax.fail message) trees all := fun _ _ => Goes.fail

theorem take {rest : Token → Parser β}
    (plain : kind ≠ .eof)
    (next : ∀ token, Leads source bound low first forest seen (rest token) trees all) :
    Leads source bound low first forest seen (Syntax.take kind context >>= rest) trees
      all := by
  intro state spot
  apply (spot.take plain).bind
  rintro token later ⟨-, spot', -⟩
  exact next token later spot'

theorem name {rest : Name → Parser β}
    (next : ∀ name, Leads source bound low first forest seen (rest name) trees all) :
    Leads source bound low first forest seen (Syntax.takeIdentifier context >>= rest) trees
      all := by
  intro state spot
  apply spot.takeIdentifier.bind
  rintro name later ⟨spot', -⟩
  exact next name later spot'

theorem accept {rest : Bool → Parser β} (plain : kind ≠ .eof)
    (yes : Leads source bound low first forest seen (rest true) trees all)
    (no : Leads source bound low first forest seen (rest false) trees all) :
    Leads source bound low first forest seen (Syntax.accept kind >>= rest) trees all :=
  fun state spot => spot.accept plain (fun later spot' _ => yes later spot') fun _ => no state spot

theorem peek {rest : TokenKind → Parser β}
    (next : ∀ kind, Leads source bound low first forest seen (rest kind) trees all) :
    Leads source bound low first forest seen (currentKind >>= rest) trees all :=
  fun state spot => Goes.peek (next state.current.kind state spot)

theorem choice (accepted : Leads source bound low first forest seen yes trees all)
    (refused : Leads source bound low first forest seen no trees all) :
    Leads source bound low first forest seen
      (currentKind >>= fun current => if current = kind then yes else no) trees all :=
  fun state spot => Goes.choice (fun _ => accepted state spot) fun _ => refused state spot

theorem check {check : Parser Unit} (still : Still check) {rest : Unit → Parser β}
    (next : Leads source bound low first forest seen (rest ()) trees all) :
    Leads source bound low first forest seen (check >>= rest) trees all := by
  intro state spot
  apply (still state).bind
  rintro _ later rfl
  exact next later spot

theorem grow (plants : Plants source limit size parser next more) (enough : bound ≤ limit)
    (tail : ∀ value, Leads source bound low first
      (forest ++ next value) (seen ++ more value) (rest value) trees all) :
    Leads source bound low first forest seen (parser >>= rest) trees all := by
  intro state spot
  apply (spot.grow plants enough).bind
  rintro value later ⟨spot', -⟩
  exact tail value later spot'

theorem pass (bare : Bare source limit size parser) (enough : bound ≤ limit)
    (tail : ∀ value, Leads source bound low first forest seen (rest value) trees all) :
    Leads source bound low first forest seen (parser >>= rest) trees all := by
  refine grow bare enough fun value => ?_
  rw [append_nil, append_nil]
  exact tail value

theorem close (plain : kind ≠ .eof) (start : opening.start.offset = low) {make : NodeInfo → β}
    (tree : ∀ info, trees (make info) = [.node info.label forest])
    (fewer : ∀ info, ∀ expression ∈ all (make info), expression ∈ seen) :
    Leads source bound low first forest seen (do
      let close ← Syntax.take kind context
      let info ← identified (joined opening close.span)
      Pure.pure (make info)) trees all := by
  intro state spot
  apply (spot.last plain start).bind
  intro close _ numbered
  apply numbered.bind
  intro info later spot'
  exact Goes.pure (spot'.perm (by rw [tree]) (fewer info))

end Leads

namespace Plants

variable {trees : β → List Rose} {all : β → List Expr} {kind : TokenKind} {context : String}

theorem start {parser : Parser β} (next : ∀ {bound low first : Nat}, bound ≤ limit →
      Leads source bound low first [] [] parser trees all) :
    Plants source limit 0 parser trees all :=
  fun state standing room => next room state (Spot.begin standing)

theorem bind (plants : Plants source fuel 1 parser next more) (enough : limit ≤ fuel)
    (tail : ∀ {bound low first : Nat} (value : α), bound < limit →
      Leads source bound low first (next value) (more value) (rest value) trees all) :
    Plants source limit 1 (parser >>= rest) trees all := by
  intro state standing room
  apply (plants state standing (Nat.lt_of_lt_of_le room enough)).bind
  intro value later spot
  exact tail value room later spot

theorem keyword {rest : Token → Parser β} (plain : kind ≠ .eof)
    (next : ∀ {bound low first : Nat} (token : Token), bound < limit →
      token.span.start.offset = low →
        Leads source bound low first [] [] (rest token) trees all) :
    Plants source limit 1 (Syntax.take kind context >>= rest) trees all := by
  intro state standing room
  apply ((Spot.begin standing).take plain).bind
  rintro _ later ⟨rfl, spot, passed⟩
  have shorter := passed.shorter
  exact next _ room rfl later (spot.rebound (by omega))

theorem named {rest : Name → Parser β}
    (next : ∀ {bound low first : Nat} (name : Name), bound < limit →
        Leads source bound low first [] [] (rest name) trees all) :
    Plants source limit 1 (Syntax.takeIdentifier context >>= rest) trees all := by
  intro state standing room
  apply (Spot.begin standing).takeIdentifier.bind
  rintro name later ⟨spot, passed⟩
  have shorter := passed.shorter
  exact next _ room later (spot.rebound (by omega))

theorem loosen {parser : Parser β} (plants : Plants source limit 1 parser trees all) :
    Plants source limit 0 parser trees all := by
  intro state standing room
  apply (plants state standing room).imp
  intro value later spot
  have fewer := spot.room
  exact spot.rebound (by omega)

theorem peek {rest : TokenKind → Parser β}
    (next : ∀ kind, Plants source limit size (rest kind) trees all) :
    Plants source limit size (currentKind >>= rest) trees all :=
  fun state standing room => Goes.peek (next state.current.kind state standing room)

theorem check {check : Parser Unit} (still : Still check) {rest : Unit → Parser β}
    (next : Plants source limit size (rest ()) trees all) :
    Plants source limit size (check >>= rest) trees all := by
  intro state standing room
  apply (still state).bind
  rintro _ later rfl
  exact next later standing room

theorem choice (accepted : Plants source limit size yes trees all)
    (refused : Plants source limit size no trees all) :
    Plants source limit size
      (currentKind >>= fun current => if current = kind then yes else no) trees all :=
  fun state standing room => Goes.choice (fun _ => accepted state standing room)
    fun _ => refused state standing room

theorem regroup {parser : Parser β} {forests : β → List Rose} {seens : β → List Expr}
    (plants : Plants source limit size parser forests seens)
    (perm : ∀ value, (forests value).Perm (trees value))
    (fewer : ∀ value, ∀ expression ∈ all value, expression ∈ seens value) :
    Plants source limit size parser trees all :=
  fun state standing room => (plants state standing room).imp
    fun value _ spot => spot.perm (perm value) (fewer value)

theorem accept {rest : Bool → Parser β} (plain : kind ≠ .eof)
    (yes : ∀ {bound low first : Nat}, bound < limit →
      Leads source bound low first [] [] (rest true) trees all)
    (no : Plants source limit 0 (rest false) trees all) :
    Plants source limit 0 (Syntax.accept kind >>= rest) trees all := by
  intro state standing room
  refine (Spot.begin standing).accept plain ?_ fun _ => no state standing room
  intro later spot passed
  have shorter := passed.shorter
  apply (yes room later (spot.rebound (by omega))).imp
  intro value final spot'
  exact spot'.rebound (Nat.lt_succ_of_lt spot'.room)

theorem rounds {loop : Nat → Parser β}
    (step : ∀ rounds limit, limit < fuel → Plants source limit size (loop rounds) trees all →
      Plants source (limit + 1) size (loop (rounds + 1)) trees all) :
    Plants source fuel size (loop fuel) trees all := by
  have all : ∀ rounds limit, limit ≤ fuel → limit ≤ rounds →
      Plants source limit size (loop rounds) trees all := by
    intro rounds
    induction rounds with
    | zero =>
      intro limit _ none state _ room
      omega
    | succ rounds ih =>
      intro limit enough few
      cases limit with
      | zero =>
        intro state _ room
        omega
      | succ limit => exact step rounds limit enough (ih limit (by omega) (by omega))
  exact all fuel fuel (Nat.le_refl _) (Nat.le_refl _)

end Plants

/-! ## The parsers -/

theorem plants_expr (fuel : Nat) :
    Plants source fuel 1 (expr fuel) (fun value => [value.tree]) fun value => [value] := by
  intro state standing room
  apply (goes_expr source.stream fuel state standing room).imp
  rintro value later ⟨⟨standing', taken, front, derives, numbered⟩, shorter⟩
  have suffix : taken ++ later.tokens <:+ source.whole := front ▸ standing.suffix
  have spread : Spread state.here taken later.here := by
    refine spread_taken suffix rfl ?_
    rw [← front]
    rintro token member
    cases member
    exact Nat.le_refl _
  refine ⟨standing', by omega, derives.placed _ _ spread, numbered, ?_⟩
  intro expression member
  rw [mem_singleton.mp member]
  obtain ⟨before, split⟩ := suffix
  exact ⟨before, taken, later.tokens, by rw [← split, append_assoc], derives⟩

theorem plants_separatedItems (each : Plants source fuel 1 item next more) {close : TokenKind}
    (message : String) :
    Plants source fuel 0 (separatedItems close message item fuel)
      (fun values => values.flatMap next) fun values => values.flatMap more := by
  have separate : Bare source fuel 0 (separator close message) :=
    .accept (by decide) (fun _ => .pure rfl rfl)
      (.choice (.start fun _ => .pure rfl rfl) (.start fun _ => .fail))
  refine .rounds fun rounds limit enough ih => .choice (.start fun _ => .pure rfl rfl) (.loosen ?_)
  refine .bind each (by omega) fun value room => ?_
  refine .pass separate (by omega) fun _ => ?_
  exact .grow ih (Nat.le_of_lt_succ room) fun values => .pure rfl rfl

theorem plants_itemsUntil (each : Plants source fuel 1 item next more) {close : TokenKind} :
    Plants source fuel 0 (itemsUntil close item fuel)
      (fun values => values.flatMap next) fun values => values.flatMap more := by
  refine .rounds fun rounds limit enough ih => .choice (.start fun _ => .pure rfl rfl) (.loosen ?_)
  refine .bind each (by omega) fun value room => ?_
  exact .grow ih (Nat.le_of_lt_succ room) fun values => .pure rfl rfl

theorem bare_separatedItems (each : Bare source fuel 1 item) {close : TokenKind}
    (message : String) : Bare source fuel 0 (separatedItems close message item fuel) :=
  (plants_separatedItems each message).regroup (by simp) (by simp)

theorem bare_tupleTail (each : Bare source fuel 1 item) :
    Bare source fuel 0 (tupleTail item fuel) := by
  refine .rounds fun rounds limit enough ih => ?_
  refine .accept (by decide) (fun room => ?_) (.start fun _ => .pure rfl rfl)
  refine .choice (.pure rfl rfl) ?_
  refine .pass each (by omega) fun value => ?_
  exact .pass ih (Nat.le_of_lt_succ room) fun values => .pure rfl rfl

theorem bare_type (fuel : Nat) :
    Bare source fuel 1 (type fuel) := by
  induction fuel with
  | zero =>
    intro state _ room
    omega
  | succ fuel ih =>
    refine .choice ?_ ?_
    · refine .keyword (by decide) fun _ room _ => ?_
      refine .pass ih (Nat.le_of_lt_succ room) fun _ => ?_
      refine .take (by decide) fun _ => ?_
      refine .pass ih (Nat.le_of_lt_succ room) fun _ => ?_
      refine .pass (bare_tupleTail ih) (Nat.le_of_lt_succ room) fun _ => ?_
      exact .take (by decide) fun _ => .pure rfl rfl
    · refine .named fun name room => ?_
      refine .peek fun kind => ?_
      split
      · refine .take (by decide) fun _ => ?_
        refine .pass ih (Nat.le_of_lt_succ room) fun _ => ?_
        refine .take (by decide) fun _ => ?_
        refine .pass ih (Nat.le_of_lt_succ room) fun _ => ?_
        exact .take (by decide) fun _ => .pure rfl rfl
      · exact .pure rfl rfl

theorem bare_typedName (nameContext colonContext : String) :
    Bare source fuel 1 (typedName nameContext colonContext fuel) := by
  refine .named fun name room => ?_
  refine .take (by decide) fun _ => ?_
  exact .pass (bare_type fuel) room.le fun _ => .pure rfl rfl

theorem bare_parameters :
    Bare source fuel 1 (parameters fuel) := by
  have parameter : Bare source fuel 1 (parameter fuel) :=
    .bind (bare_typedName _ _) (Nat.le_refl _) fun _ _ => .pure rfl rfl
  refine .keyword (by decide) fun _ room _ => ?_
  refine .pass (bare_separatedItems parameter _) room.le fun _ => ?_
  exact .take (by decide) fun _ => .pure rfl rfl

theorem bare_enumCases :
    Bare source fuel 1 (enumCases fuel fuel) := by
  have field : Bare source fuel 1 (enumField fuel) :=
    .bind (bare_typedName _ _) (Nat.le_refl _) fun _ _ => .pure rfl rfl
  have each : Bare source fuel 1 (enumCase fuel) := by
    refine .named fun name room => .accept (by decide) ?_ (.pure rfl rfl)
    refine .pass (bare_separatedItems field _) room.le fun _ => ?_
    exact .take (by decide) fun _ => .pure rfl rfl
  refine .rounds fun rounds limit enough ih => ?_
  refine .bind each (by omega) fun _ room => .accept (by decide) ?_ (.pure rfl rfl)
  exact .choice (.pure rfl rfl) (.pass ih (Nat.le_of_lt_succ room) fun _ => .pure rfl rfl)

theorem plants_enumDecl :
    Plants source fuel 1 (enumDecl fuel) (fun value => [(Declaration.enum value).tree])
      fun value => Tree.expressions value := by
  refine .keyword (by decide) fun word room start => ?_
  refine .name fun name => ?_
  refine .take (by decide) fun _ => ?_
  refine .peek fun kind => .check nonempty_still ?_
  refine .pass bare_enumCases room.le fun cases => ?_
  exact .close (by decide) start (fun _ => rfl) fun _ _ member => member

theorem plants_tableEntry :
    Plants source fuel 1 (tableEntry fuel) (fun entry => [entry.key.tree, entry.value.tree])
      fun entry => Tree.expressions entry := by
  refine .peek fun kind => .check nonempty_still ?_
  refine .bind (plants_expr fuel) (Nat.le_refl _) fun key room => ?_
  refine .take (by decide) fun _ => ?_
  exact .grow (plants_expr fuel) room.le fun value => .pure rfl rfl

theorem plants_tableLiteral :
    Plants source fuel 1 (tableLiteral fuel) TableLiteral.forest
      fun table => Tree.expressions table := by
  have option : ∀ name, Still (defaultOption name) := by
    intro name state
    unfold defaultOption
    split
    · exact Goes.pure rfl
    · trivial
  refine .keyword (by decide) fun _ room _ => ?_
  refine .take (by decide) fun _ => ?_
  refine .name fun name => .check (option name) ?_
  refine .take (by decide) fun _ => ?_
  refine .grow (plants_expr fuel) room.le fun defaultValue => ?_
  refine .take (by decide) fun _ => ?_
  refine .take (by decide) fun _ => ?_
  refine .grow (plants_separatedItems plants_tableEntry _) room.le fun entries => ?_
  exact .take (by decide) fun _ => .pure rfl rfl

theorem requireTable_still {declared : TypeSyntax} : Still (requireTable message declared) := by
  intro state
  cases declared with
  | table => exact Goes.pure rfl
  | named => trivial
  | tuple => trivial

theorem plants_letDecl :
    Plants source fuel 1 (letDecl fuel) (fun value => [(Declaration.letBinding value).tree])
      fun value => Tree.expressions value := by
  refine .keyword (by decide) fun word room start => ?_
  refine .name fun name => ?_
  refine .take (by decide) fun _ => ?_
  refine .pass (bare_type fuel) room.le fun declared => .check requireTable_still ?_
  refine .take (by decide) fun _ => ?_
  refine .grow plants_tableLiteral room.le fun value => ?_
  exact .close (by decide) start (fun _ => rfl) fun _ _ member => member

theorem plants_modelDecl :
    Plants source fuel 1 (modelDecl fuel) (fun value => [(Declaration.model value).tree])
      fun value => Tree.expressions value := by
  have value : Plants source fuel 0 (modelValue fuel)
      (fun value => (value.map TableLiteral.forest).getD []) fun value => Tree.expressions value :=
    .accept (by decide) (fun room => .grow plants_tableLiteral room.le fun _ => .pure rfl rfl)
      (.start fun _ => .pure rfl rfl)
  refine .keyword (by decide) fun word room start => ?_
  refine .name fun name => ?_
  refine .take (by decide) fun _ => ?_
  refine .pass (bare_type fuel) room.le fun declared => .check requireTable_still ?_
  refine .grow value room.le fun value => ?_
  exact .close (by decide) start (fun _ => rfl) fun _ _ member => member

theorem plants_arguments :
    Plants source fuel 1 (arguments fuel)
      (fun values => values.map fun value => value.value.tree)
      fun values => Tree.expressions values := by
  have argument : Plants source fuel 1 (namedArgument fuel) (fun value => [value.value.tree])
      fun value => Tree.expressions value := by
    refine .named fun name room => ?_
    refine .take (by decide) fun _ => ?_
    exact .grow (plants_expr fuel) room.le fun value => .pure rfl rfl
  refine .keyword (by decide) fun _ room _ => ?_
  refine .grow (plants_separatedItems argument _) room.le fun values => ?_
  refine .take (by decide) fun _ => .regroup ?_ fun _ member => member
  rw [map_eq_flatMap]
  rfl

theorem plants_solveDecl :
    Plants source fuel 1 (solveDecl fuel) (fun value => [(Declaration.solve value).tree])
      fun value => Tree.expressions value := by
  refine .keyword (by decide) fun word room start => ?_
  refine .name fun name => ?_
  refine .take (by decide) fun _ => ?_
  refine .take (by decide) fun _ => ?_
  refine .grow plants_arguments room.le fun takes => ?_
  refine .take (by decide) fun _ => ?_
  refine .take (by decide) fun _ => ?_
  refine .take (by decide) fun _ => ?_
  refine .grow (plants_expr fuel) room.le fun gives => ?_
  refine .take (by decide) fun _ => ?_
  refine .take (by decide) fun _ => ?_
  exact .close (by decide) start (fun _ => rfl) fun _ _ member => member

theorem plants_condition (context : String) :
    Plants source fuel 1 (condition context fuel) (fun value => [value.tree])
      fun value => [value] :=
  .bind (plants_expr fuel) (Nat.le_refl _) fun _ _ =>
    .take (by decide) fun _ => .pure rfl rfl

theorem plants_conditions (context : String) :
    Plants source fuel 0 (conditions context fuel) (fun values => values.map Expr.tree)
      fun values => values :=
  (plants_itemsUntil (plants_condition context)).regroup (by simp [← map_eq_flatMap]) (by simp)

theorem plants_conditionBlock {keyword : TokenKind}
    (word : keyword ≠ .eof) (description : String) (allowEmpty : Bool) :
    Plants source fuel 1 (conditionBlock keyword description allowEmpty fuel)
      (fun values => values.map Expr.tree) fun values => values := by
  refine .keyword word fun _ room _ => ?_
  refine .take (by decide) fun _ => ?_
  refine .grow (plants_conditions _) room.le fun values => .check nonempty_still ?_
  exact .take (by decide) fun _ => .pure rfl rfl

theorem plants_viewDecl :
    Plants source fuel 1 (viewDecl fuel) (fun value => [(Declaration.view value).tree])
      fun value => Tree.expressions value := by
  have witness : Plants source fuel 0 (viewWitness fuel)
      (fun value => value.toList.map Expr.tree) fun value => Tree.expressions value :=
    .accept (by decide) (fun room => .grow (plants_condition _) room.le fun _ => .pure rfl rfl)
      (.start fun _ => .pure rfl rfl)
  refine .keyword (by decide) fun word room start => ?_
  refine .name fun name => ?_
  refine .pass bare_parameters room.le fun inputs => ?_
  refine .take (by decide) fun _ => ?_
  refine .pass (bare_type fuel) room.le fun carrier => ?_
  refine .take (by decide) fun _ => ?_
  refine .grow (plants_conditionBlock (by decide) _ _) room.le fun requirements => ?_
  refine .grow witness room.le fun witness => ?_
  exact .close (by decide) start (fun _ => rfl) (by simp [Tree.expressions])

theorem plants_arbitraryPremise :
    Plants source fuel 1 (arbitraryPremise fuel) (fun value => [value.tree])
      fun value => value.viewArguments ++ value.premises := by
  have arguments : Plants source fuel 0 (separatedItems .rightParen
      "expected `,` or `)` after a constrained-view argument" (expr fuel) fuel)
      (fun values => values.map Expr.tree) fun values => values :=
    (plants_separatedItems (plants_expr fuel) _).regroup (by simp [← map_eq_flatMap]) (by simp)
  refine .keyword (by decide) fun word room start => ?_
  refine .name fun binder => ?_
  refine .take (by decide) fun _ => ?_
  refine .name fun view => ?_
  refine .take (by decide) fun _ => ?_
  refine .grow arguments room.le fun viewArguments => ?_
  refine .take (by decide) fun _ => ?_
  refine .take (by decide) fun _ => ?_
  refine .grow (plants_conditions _) room.le fun premises => ?_
  -- The premises are counted between the last token and the number of the node.
  intro state spot
  apply (spot.last (by decide) start).bind
  intro close s₁ numbered
  apply (nonempty_still s₁).bind
  rintro _ _ rfl
  apply numbered.bind
  intro info later spot'
  rw [nil_append, ← map_append] at spot'
  exact Goes.pure (spot'.perm (List.Perm.refl _) (by simp))

theorem plants_constructorPremises :
    Plants source fuel 0 (constructorPremises fuel fuel)
      (fun value => value.1.map Expr.tree ++ value.2.map ArbitraryPremise.tree)
      fun value => value.1 ++ Tree.expressions value.2 := by
  refine .rounds fun rounds limit enough ih => .peek fun kind => ?_
  split
  · exact .start fun _ => .pure rfl rfl
  · split
    · refine .loosen (.bind plants_arbitraryPremise (by omega) fun field room => ?_)
      refine .grow ih (Nat.le_of_lt_succ room) fun later => .regroup ?_ ?_
      · show (field.tree :: (later.1.map Expr.tree ++ later.2.map ArbitraryPremise.tree)).Perm
          (later.1.map Expr.tree ++ field.tree :: later.2.map ArbitraryPremise.tree)
        exact perm_middle.symm
      · intro expression member
        simp only [Tree.expressions, flatMap_cons, flatMap_singleton', mem_append] at member ⊢
        tauto
    · refine .loosen (.bind (plants_condition _) (by omega) fun premise room => ?_)
      exact .grow ih (Nat.le_of_lt_succ room) fun later => .pure rfl rfl

theorem plants_predicateConstructor :
    Plants source fuel 1 (predicateConstructor fuel) PredicateConstructor.forest
      fun value => Tree.expressions value := by
  refine .keyword (by decide) fun _ room _ => ?_
  refine .name fun name => ?_
  refine .pass bare_parameters room.le fun inputs => ?_
  refine .take (by decide) fun _ => ?_
  refine .take (by decide) fun _ => ?_
  refine .take (by decide) fun _ => ?_
  refine .grow plants_constructorPremises room.le fun premises => ?_
  refine .take (by decide) fun _ => ?_
  refine .take (by decide) fun _ => ?_
  refine .grow (plants_condition _) room.le fun result => ?_
  exact .take (by decide) fun _ => .regroup (List.Perm.refl _) (by simp [Tree.expressions])

theorem plants_predicateDecl :
    Plants source fuel 1 (predicateDecl fuel)
      (fun value => [(Declaration.predicate value).tree]) fun value => Tree.expressions value := by
  refine .keyword (by decide) fun word room start => ?_
  refine .name fun name => ?_
  refine .pass bare_parameters room.le fun indices => .check nonempty_still ?_
  refine .take (by decide) fun _ => ?_
  refine .grow (plants_itemsUntil plants_predicateConstructor) room.le fun _ => ?_
  refine .check nonempty_still ?_
  exact .close (by decide) start (fun _ => rfl) fun _ _ member => member

theorem plants_matchArm :
    Plants source fuel 1 (matchArm fuel) (fun arm => [arm.value.tree])
      fun arm => Tree.expressions arm := by
  have binding : Bare source fuel 1 matchBinding := .named fun _ _ => .pure rfl rfl
  have pattern : ∀ name, Bare source fuel 0 (matchPattern name fuel) := by
    intro name
    refine .accept (by decide) (fun room => ?_) (.start fun _ => .pure rfl rfl)
    refine .pass (bare_separatedItems binding _) room.le fun bindings => ?_
    exact .take (by decide) fun _ => .pure rfl rfl
  refine .named fun constructor room => ?_
  refine .pass (pattern constructor) room.le fun pattern => ?_
  refine .take (by decide) fun _ => ?_
  exact .grow (plants_expr fuel) room.le fun value => .pure rfl rfl

theorem plants_matchArms :
    Plants source fuel 0 (matchArms fuel) (fun arms => arms.map fun arm => arm.value.tree)
      fun arms => Tree.expressions arms :=
  (plants_separatedItems plants_matchArm _).regroup
    (by simp [← map_eq_flatMap]) fun _ _ member => member

theorem plants_functionDecl :
    Plants source fuel 1 (functionDecl fuel)
      (fun value => [(Declaration.function value).tree]) fun value => Tree.expressions value := by
  refine .keyword (by decide) fun word room start => ?_
  refine .name fun name => ?_
  refine .pass bare_parameters room.le fun inputs => ?_
  refine .take (by decide) fun _ => ?_
  refine .pass (bare_type fuel) room.le fun resultType => ?_
  refine .take (by decide) fun _ => ?_
  refine .take (by decide) fun _ => ?_
  refine .grow (plants_expr fuel) room.le fun scrutinee => ?_
  refine .take (by decide) fun _ => ?_
  refine .grow plants_matchArms room.le fun arms => .check nonempty_still ?_
  refine .take (by decide) fun _ => ?_
  exact .close (by decide) start (fun _ => rfl) fun _ _ member => member

theorem plants_synthSkeleton :
    Plants source fuel 0 (synthSkeleton fuel)
      (fun value => value.1.toList.map Expr.tree ++ value.2.map fun arm => arm.value.tree)
      fun value => Tree.expressions value.1 ++ Tree.expressions value.2 := by
  refine .choice (.loosen ?_) (.start fun _ => .pure rfl rfl)
  refine .keyword (by decide) fun _ room _ => ?_
  refine .grow (plants_expr fuel) room.le fun scrutinee => ?_
  refine .take (by decide) fun _ => ?_
  refine .grow plants_matchArms room.le fun arms => .check nonempty_still ?_
  exact .take (by decide) fun _ => .pure rfl rfl

theorem plants_synthDecl :
    Plants source fuel 1 (synthDecl fuel) (fun value => [(Declaration.synth value).tree])
      fun value => Tree.expressions value := by
  refine .keyword (by decide) fun word room start => ?_
  refine .name fun name => ?_
  refine .pass bare_parameters room.le fun inputs => ?_
  refine .take (by decide) fun _ => ?_
  refine .pass (bare_type fuel) room.le fun resultType => ?_
  refine .take (by decide) fun _ => ?_
  refine .grow plants_synthSkeleton room.le fun skeleton => ?_
  refine .take (by decide) fun _ => ?_
  refine .take (by decide) fun _ => ?_
  refine .grow (plants_conditions _) room.le fun ensures => .check nonempty_still ?_
  refine .take (by decide) fun _ => ?_
  exact .close (by decide) start (fun _ => rfl) (by simp [Tree.expressions])

/-- A call stays a node, and the number of a name is not used again. -/
theorem plants_inductsClause :
    Plants source fuel 0 (inductsClause fuel)
      (fun value => value.call.toList.map Expr.tree) fun value => value.call.toList := by
  refine .choice (.loosen ?_) (.start fun _ => .pure rfl rfl)
  refine .keyword (by decide) fun _ room _ => ?_
  refine .take (by decide) fun _ => ?_
  refine .grow (plants_expr fuel) room.le fun target => ?_
  refine .take (by decide) fun _ => ?_
  refine .take (by decide) fun _ => ?_
  intro state spot
  cases target with
  | call => exact Goes.pure spot
  | name =>
    refine Goes.pure ⟨spot.standing, spot.room, Placed.nil spot.placed.forward, ?_, by simp⟩
    exact (Numbered.nil _).skip spot.numbered.forward
  | _ => trivial

theorem plants_checkDecl {kind : TokenKind} (word : kind ≠ .eof)
    (reusable : Bool) (keyword : String) :
    Plants source fuel 1 (do
        let first ← take kind ""
        checkDeclAfter first reusable keyword fuel)
      (fun value => [(Declaration.check value).tree]) fun value => Tree.expressions value := by
  refine .keyword word fun first room start => ?_
  refine .name fun name => ?_
  refine .pass bare_parameters room.le fun inputs => ?_
  refine .take (by decide) fun _ => ?_
  refine .grow plants_inductsClause room.le fun induction => ?_
  refine .grow (plants_conditionBlock (by decide) _ _) room.le fun assumes => ?_
  refine .grow (plants_conditionBlock (by decide) _ _) room.le fun ensures => ?_
  refine .close (by decide) start (fun _ => rfl) ?_
  cases induction.call <;> simp [Tree.expressions]

theorem plants_counterexampleDecl :
    Plants source fuel 1 (counterexampleDecl fuel)
      (fun value => [(Declaration.counterexample value).tree]) fun value =>
        Tree.expressions value := by
  have entry : Plants source fuel 1 (counterexampleEntry fuel)
      (fun value => [value.value.tree]) fun value => Tree.expressions value := by
    refine .named fun name room => ?_
    refine .take (by decide) fun _ => ?_
    refine .pass (bare_type fuel) room.le fun declared => ?_
    refine .take (by decide) fun _ => ?_
    refine .grow (plants_expr fuel) room.le fun value => ?_
    exact .take (by decide) fun _ => .pure rfl rfl
  refine .keyword (by decide) fun word room start => ?_
  refine .name fun name => ?_
  refine .take (by decide) fun _ => ?_
  refine .grow (plants_itemsUntil entry) room.le fun entries => ?_
  refine .close (by decide) start (fun _ => ?_) fun _ _ member => member
  rw [nil_append, ← map_eq_flatMap]
  rfl

theorem Plants.map {make : α → Declaration} [Tree α]
    (plants : Plants source fuel 1 parser (fun value => [(make value).tree])
      fun value => Tree.expressions value)
    (same : ∀ value, Tree.expressions (make value) = Tree.expressions value) :
    Plants source fuel 1 (make <$> parser) (fun value => [value.tree])
      fun value => Tree.expressions value := by
  intro state standing room
  rw [map_eq_pure_bind]
  apply (plants state standing room).bind
  intro value later spot
  refine Goes.pure ?_
  simp only [same]
  exact spot

theorem plants_declaration :
    Plants source fuel 1 (declaration fuel) (fun value => [value.tree])
      fun value => Tree.expressions value := by
  intro state standing room
  apply Goes.peek
  split
  · exact plants_enumDecl.map (fun _ => rfl) state standing room
  · exact plants_letDecl.map (fun _ => rfl) state standing room
  · exact plants_modelDecl.map (fun _ => rfl) state standing room
  · exact (plants_checkDecl (by decide) _ _).map (fun _ => rfl) state standing room
  · exact plants_predicateDecl.map (fun _ => rfl) state standing room
  · exact plants_solveDecl.map (fun _ => rfl) state standing room
  · exact plants_viewDecl.map (fun _ => rfl) state standing room
  · exact plants_functionDecl.map (fun _ => rfl) state standing room
  · exact plants_synthDecl.map (fun _ => rfl) state standing room
  · exact (plants_checkDecl (by decide) _ _).map (fun _ => rfl) state standing room
  · exact plants_counterexampleDecl.map (fun _ => rfl) state standing room
  · exact Goes.fail

end Declarations

/-! ## Documents -/

theorem Increasing.neighbours {front : List Token} {next : Token} {later : List Token}
    (increasing : Increasing cursor (front ++ token :: next :: later)) :
    token.span.start.offset + token.text.length = token.span.stop.offset ∧
      token.span.stop.offset ≤ next.span.start.offset := by
  induction front generalizing cursor with
  | nil => exact ⟨increasing.2.1, increasing.2.2.1⟩
  | cons first front ih => exact ih increasing.2.2

theorem Increasing.start_le_stop (increasing : Increasing cursor tokens) :
    ∀ token ∈ tokens, token.span.start.offset ≤ token.span.stop.offset := by
  induction tokens generalizing cursor with
  | nil => simp
  | cons first tokens ih =>
    obtain ⟨-, length, rest⟩ := increasing
    exact forall_mem_cons.mpr ⟨by omega, ih rest⟩

theorem lex_increasing (text : SourceText) : Increasing 0 (lex text).tokens :=
  lexFrom_increasing (text.length + 1) ⟨{}, text⟩

def lexSource (text : SourceText) : Source where
  whole := (lex text).tokens
  refusal := (lex text).refusal
  stream := lex_stream text
  ordered := by
    intro front token next later shape
    have increasing := lex_increasing text
    have solid : ∀ token ∈ (lex text).tokens, token.kind ≠ .eof → token.text ≠ [] :=
      lexFrom_solid _ _
    have more : token.kind ≠ .eof := fun last => by
      have none := (lex_stream text).last front token (next :: later) shape last
      cases none
    have positive := length_pos_iff.mpr (solid token (by rw [shape]; simp) more)
    rw [shape] at increasing
    have places := increasing.neighbours
    exact ⟨by omega, places.2⟩

/-- Tokens stand inside the text. -/
theorem lexFrom_bounded (fuel : Nat) (scanner : Scanner) :
    ∀ token ∈ (lexFrom fuel scanner).tokens,
      token.span.stop.offset ≤ scanner.position.offset + scanner.rest.length := by
  induction fuel generalizing scanner with
  | zero => simp [lexFrom]
  | succ fuel ih =>
    unfold lexFrom
    cases read : next scanner with
    | error refusal => simp
    | ok found =>
      obtain ⟨token, after⟩ := found
      obtain ⟨blank, split, -, -, start, stop, place, -⟩ := next_ok read
      have lengths := congrArg List.length split
      simp only [length_append] at lengths
      have here : token.span.stop.offset + after.rest.length =
          scanner.position.offset + scanner.rest.length := by
        rw [stop, place]
        omega
      simp only
      split
      · intro other member
        rw [mem_singleton.mp member]
        omega
      · intro other member
        rcases mem_cons.mp member with rfl | member
        · omega
        · have bound := ih after other member
          rw [← stop] at bound
          omega

/-- A parse builds trees with different numbers, derived from tokens in a row. -/
theorem parse_planted {source : SourceText} {document : Document}
    (parsed : parse source = .ok document) : ∃ low next,
      Placed low source.length document.forest ∧ Numbered 0 next (numbersOf document.forest) ∧
        ∀ expression ∈ Tree.expressions document, Slice (lex source).tokens expression := by
  have goes := @parseWith_goes Document (fun found _ => ∃ low next,
    Placed low source.length found.forest ∧ Numbered 0 next (numbersOf found.forest) ∧
      ∀ expression ∈ Tree.expressions found, Slice (lex source).tokens expression)
    Syntax.document source ?_
  · rcases goes with ⟨found, _, parsed', holds⟩ | ⟨refusal, refused⟩
    · cases parsed.symm.trans parsed'
      exact holds
    · cases parsed.symm.trans refused
  · intro state all refused number
    have standing : At (lexSource source).whole (lexSource source).refusal state :=
      ⟨all ▸ suffix_refl _, refused⟩
    apply Goes.get
    apply (plants_itemsUntil plants_declaration state standing (by
      simp [ParserState.tokens])).bind
    intro declarations later spot
    apply Goes.get
    refine Goes.pure ⟨state.here, later.nextNodeId, ?_, ?_, spot.written⟩
    · have inside : later.here ≤ source.length := by
        have member : later.current ∈ (lex source).tokens :=
          spot.standing.suffix.subset mem_cons_self
        have bound : later.current.span.stop.offset ≤ 0 + source.length :=
          lexFrom_bounded _ _ later.current member
        have forward : later.here ≤ later.current.span.stop.offset :=
          (lex_increasing source).start_le_stop later.current member
        omega
      have placed := spot.placed.widen (Nat.le_refl _) inside
      simp only [← map_eq_flatMap] at placed
      exact placed
    · have numbered := spot.numbered
      rw [number] at numbered
      simp only [← map_eq_flatMap] at numbered
      exact numbered

/-- Spans nest and numbers are unique: in every parsed document no two nodes have one number; every
span is not empty, lies inside the source and contains those of the nodes directly inside it, which
are disjoint, as those of the declarations are. -/
theorem parse_spans {source : SourceText} {document : Document}
    (parsed : parse source = .ok document) :
    (numbersOf document.forest).Nodup ∧
      (∀ node ∈ Rose.nodesAll document.forest, node.Proper ∧ node.label.stop ≤ source.length) ∧
      document.forest.Pairwise Rose.Apart := by
  obtain ⟨low, next, placed, numbered, -⟩ := parse_planted parsed
  refine ⟨numbered.nodup, ?_, placed.apart⟩
  intro node member
  exact ⟨placed.proper node member, (placed.inside_stretch node member).2⟩

/-- An arbitrary field, and operations and calls inside one another. -/
def nestedSource : SourceText :=
  ("predicate Q(n: Int) \x7b constructor all(n: Int) \x7b takes \x7b Q(f(n, 1) + 2); " ++
    "arbitrary m: At(n) \x7b Q(m); \x7d \x7d gives Q((n + 1) - 2); \x7d \x7d").toList

/-- The nodes of the sample nest. -/
theorem nestedSource_spans : ∃ document, parse nestedSource = .ok document ∧
    (numbersOf document.forest).Nodup ∧
      (∀ node ∈ Rose.nodesAll document.forest,
        node.Proper ∧ node.label.stop ≤ nestedSource.length) ∧
      document.forest.Pairwise Rose.Apart := by
  have accepted : (parse nestedSource).isOk = true := by decide +kernel
  cases parsed : parse nestedSource with
  | error failure =>
    rw [parsed] at accepted
    cases accepted
  | ok document => exact ⟨document, rfl, parse_spans parsed⟩

end Fine.Syntax
