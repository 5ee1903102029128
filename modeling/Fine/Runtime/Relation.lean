import Fine.Runtime.Bisimilar
import Fine.Syntax.Witness

/-!
# The relation found is read back

The array assembled from a model's cells is true where the relation is, and is parsed and read as
itself.
-/

namespace Fine.RuntimeDetail

open Fine.Syntax Fine.Semantics Fine.Fallible Fine.Bisimulation List

variable {runtime later : Runtime} {interp : Interp} {assignment : Assignment}

/-- Stores of true at keys, one after the other. -/
def storeAll (key : RuntimeType) (table : Term) (keys : List Term) : Term :=
  keys.foldl (fun table at_ => .app (.store key.sort .bool) [table, at_, .boolVal true]) table

def falseTable (key : RuntimeType) : Term := .app (.constArray key.sort .bool) [.boolVal false]

theorem eval_boolVal (truth : Bool) :
    eval interp (.boolVal truth) assignment = .plain (.bool truth) := by
  cases truth <;> simp [Term.boolVal, eval_app, FuncDecl.apply, Element.truth]

variable {keys : List Term} {name : Identifier} {address : Nat} {surfaces : List SurfaceValue}

variable {table : Term} {evaluate : Term → Term} {truth : Term → Bool} {left right info : EnumInfo}
  {key : RuntimeType} {rest : List Lexeme} {boolean : Nat}

theorem entryAt_storeAll (key : RuntimeType) {value : Value}
    (array : ∃ entry, eval interp table assignment = .table entry) :
    entryAt (eval interp (storeAll key table keys) assignment) value = .bool true ↔
      (∃ at_ ∈ keys, (eval interp at_ assignment).toValue = value) ∨
        entryAt (eval interp table assignment) value = .bool true := by
  induction keys generalizing table with
  | nil => simp [storeAll]
  | cons at_ keys ih =>
    obtain ⟨entry, means⟩ := array
    have stored : eval interp (.app (.store key.sort .bool) [table, at_, .boolVal true]) assignment =
        .table (open Classical in fun other =>
          if other = (eval interp at_ assignment).toValue then .bool true else entry other) := by
      simp only [eval_app, map_cons, map_nil, means, eval_boolVal]
      rfl
    rw [storeAll, foldl_cons, ← storeAll, ih ⟨_, stored⟩, stored, means]
    simp only [entryAt, exists_mem_cons_iff]
    by_cases here : value = (eval interp at_ assignment).toValue
    · simp [here]
    · simp [here, Ne.symm here]

theorem entryAt_falseTable (key : RuntimeType) (value : Value) :
    entryAt (eval interp (falseTable key) assignment) value ≠ .bool true := by
  have means : eval interp (falseTable key) assignment = .table (open Classical in fun other =>
      if Inhabits interp.shapes other key.sort.meaning then .bool false else default) := by
    rw [falseTable, eval_app, map_singleton, eval_boolVal]
    rfl
  rw [means]
  simp only [entryAt]
  split
  · simp
  · exact fun same => by cases same

theorem eval_falseTable (key : RuntimeType) :
    ∃ entry, eval interp (falseTable key) assignment = .table entry := by
  rw [falseTable, eval_app, map_singleton, eval_boolVal]
  exact ⟨_, rfl⟩

/-- With Boolean cells, true is stored where they are true. -/
theorem canonicalCells_stores {query : BisimulationQuery} {span : SourceSpan}
    (cells : ∀ key ∈ keys, evaluate (selectOf query.domain query.relation.value key) =
      .boolVal (truth key)) (table : Term) :
    (canonicalCells query span evaluate table keys).run runtime =
      .ok (storeAll query.domain table (keys.filter truth), runtime) := by
  induction keys generalizing table with
  | nil => rfl
  | cons key keys ih =>
    have later := ih fun other member => cells other (mem_cons_of_mem _ member)
    have cell := cells key mem_cons_self
    cases known : truth key with
    | true =>
      rw [known] at cell
      rw [canonicalCells, cell, if_pos rfl, later, filter_cons_of_pos known]
      rfl
    | false =>
      rw [known] at cell
      rw [canonicalCells, cell, if_neg (by decide), if_pos rfl, later,
        filter_cons_of_neg (by simp [known])]

/-- The pairs of the values of two enumerations. -/
def pairsOfValues (domain : RuntimeType) (left right : EnumInfo) : List Term :=
  left.values.flatMap fun first => right.values.map fun second => pairOf domain first second

theorem mem_pairsOfValues {domain : RuntimeType} {key : Term} :
    key ∈ pairsOfValues domain left right ↔ ∃ first < left.caseNames.length,
      ∃ second < right.caseNames.length,
        key = pairOf domain (left.value first) (right.value second) := by
  simp only [pairsOfValues, EnumInfo.values, mem_flatMap, mem_map, mem_range]
  constructor
  · rintro ⟨_, ⟨first, inside, rfl⟩, _, ⟨second, within, rfl⟩, rfl⟩
    exact ⟨first, inside, second, within, rfl⟩
  · rintro ⟨first, inside, second, within, rfl⟩
    exact ⟨_, ⟨first, inside, rfl⟩, _, ⟨second, within, rfl⟩, rfl⟩

theorem EnumInfo.values_nodup (formed : runtime.WellFormed)
    (found : runtime.enums.lookup name = some info) : info.values.Nodup := by
  obtain ⟨-, -, known⟩ := formed.tables.cases name info found
  refine List.Nodup.map_on ?_ nodup_range
  intro first inside second within same
  rw [mem_range] at inside within
  have names : info.caseNames.get ⟨first, inside⟩ = info.caseNames.get ⟨second, within⟩ := by
    simpa [EnumInfo.value, List.getElem?_eq_getElem inside, List.getElem?_eq_getElem within]
      using same
  have one := known (info.caseNames.get ⟨first, inside⟩, first)
    (mk_mem_zipIdx_iff_getElem?.mpr (List.getElem?_eq_getElem inside))
  have two := known (info.caseNames.get ⟨second, within⟩, second)
    (mk_mem_zipIdx_iff_getElem?.mpr (List.getElem?_eq_getElem within))
  rw [names, two] at one
  simpa using one.symm

theorem pairsOfValues_nodup (lefts : left.values.Nodup) (rights : right.values.Nodup)
    (domain : RuntimeType) : (pairsOfValues domain left right).Nodup := by
  have apart : ∀ first second first' second', pairOf domain first second =
      pairOf domain first' second' → first = first' ∧ second = second' := by
    intro first second first' second' same
    simpa [pairOf] using same
  rw [pairsOfValues, nodup_flatMap]
  constructor
  · intro first _
    exact rights.map fun _ _ same => (apart _ _ _ _ same).2
  · refine lefts.imp fun {first first'} differ => ?_
    intro key member member'
    obtain ⟨second, -, rfl⟩ := mem_map.mp member
    obtain ⟨second', -, same⟩ := mem_map.mp member'
    exact differ (apart _ _ _ _ same).1.symm

mutual

def SurfaceValue.expr : SurfaceValue → Expr
  | .boolean value => .boolean {} value
  | .enumeration info index => .name {} (info.caseNames.getD index default)
  | .datatype item elements =>
    if elements.isEmpty then .name {} item.name else .call {} item.name (surfaceExprs elements)
  | .tuple elements => .tuple {} (surfaceExprs elements)

def surfaceExprs : List SurfaceValue → List Expr
  | [] => []
  | element :: elements => element.expr :: surfaceExprs elements

end

mutual

theorem printValue_expr : ∀ value : SurfaceValue, printValue value = printExpression value.expr
  | .boolean value => by rw [printValue, SurfaceValue.expr, printExpression]
  | .enumeration info index => by rw [printValue, SurfaceValue.expr, printExpression]
  | .datatype item elements => by
    rw [printValue, SurfaceValue.expr]
    split
    · rw [printExpression, append_nil]
    · rw [printExpression, printValues_exprs]
  | .tuple elements => by rw [printValue, SurfaceValue.expr, printExpression, printValues_exprs]

theorem printValues_exprs :
    ∀ values : List SurfaceValue, printValues values = printElements (surfaceExprs values)
  | [] => by rw [printValues, surfaceExprs, printElements]
  | value :: values => by
    rw [printValues, surfaceExprs, printElements, printValue_expr, printLaterValues_exprs]

theorem printLaterValues_exprs :
    ∀ values : List SurfaceValue, printLaterValues values = printLater (surfaceExprs values)
  | [] => by rw [printLaterValues, surfaceExprs, printLater]
  | value :: values => by
    rw [printLaterValues, surfaceExprs, printLater, printValue_expr, printLaterValues_exprs]

end

def tableEntryLexemes (entry : SurfaceValue × SurfaceValue) : List Lexeme :=
  entry.1.expr.lexemes ++ (.colon, [':']) :: entry.2.expr.lexemes

def tableEntriesLexemes (entries : List (SurfaceValue × SurfaceValue)) : List Lexeme :=
  entries.flatMap fun entry => tableEntryLexemes entry ++ [(.comma, [','])]

/-- Tokens of a table. -/
def tableLexemes (table : SurfaceTable) : List Lexeme :=
  (.tableKw, "table".toList) :: (.leftParen, ['(']) :: (.identifier, "default".toList) ::
    (.colon, [':']) :: (table.defaultValue.expr.lexemes ++ (.rightParen, [')']) ::
      (.leftBrace, ['\x7b']) :: (tableEntriesLexemes table.entries ++ [(.rightBrace, ['\x7d'])]))

/-- Tokens of a model declaration with its table. -/
def modelLexemes (name : Identifier) (type : RuntimeType) (table : SurfaceTable) : List Lexeme :=
  (.modelKw, "model".toList) :: name.lexeme :: (.colon, [':']) :: (type.meaning.lexemes ++
    (.equal, ['=']) :: (tableLexemes table ++ [(.semicolon, [';'])]))

theorem printEntry_lexes (entry : SurfaceValue × SurfaceValue) (rest : SourceText) :
    Lexes (printEntry entry ++ rest) (tableEntryLexemes entry ++ [(.comma, [','])])
      ('\n' :: rest) := by
  have close : Lexes (',' :: '\n' :: rest) [(.comma, [','])] ('\n' :: rest) :=
    Lexes.punctuation (by decide) _
  have stored := (printExpression_lexes entry.2.expr (',' :: '\n' :: rest)
    (Scan.stops_cons.mpr (by decide))).append close
  have right := Lexes.mark (by decide : (':', TokenKind.colon) ∈ _) (stored.space (by simp))
  have keyed := (printExpression_lexes entry.1.expr _ (Scan.stops_cons.mpr
    (by decide : isNameContinue ':' = false))).append right
  have indented := (keyed.space (by simp)).space (by simp)
  simpa [printEntry, tableEntryLexemes, printValue_expr] using indented

theorem printEntries_lexes (entries : List (SurfaceValue × SurfaceValue)) :
    Lexes ('\n' :: ((entries.map printEntry).flatten ++ "\x7d;\n".toList))
      (tableEntriesLexemes entries ++ [(.rightBrace, ['\x7d']), (.semicolon, [';'])]) ['\n'] := by
  induction entries with
  | nil =>
    have close : Lexes (';' :: ['\n']) [(.semicolon, [';'])] ['\n'] :=
      Lexes.punctuation (by decide) _
    exact Lexes.blank (by decide) (Lexes.mark (by decide) close) (by simp)
  | cons entry entries ih =>
    have line := (printEntry_lexes entry _).append ih
    have next := Lexes.blank (by decide : isBlank '\n' = true) line (by simp [tableEntryLexemes])
    simpa [tableEntriesLexemes] using next

/-- A model declaration is read as its tokens. -/
theorem renderModelWitness_lexes (name : Identifier) (type : RuntimeType) (table : SurfaceTable) :
    Lexes (renderModelWitness name type table) (modelLexemes name type table) ['\n'] := by
  have lines := printEntries_lexes table.entries
  have opened := Lexes.mark (by decide : ('\x7b', TokenKind.leftBrace) ∈ _) lines
  have closed := Lexes.mark (by decide : (')', TokenKind.rightParen) ∈ _) (opened.space (by simp))
  have rest := (printExpression_lexes table.defaultValue.expr _ (Scan.stops_cons.mpr
    (by decide : isNameContinue ')' = false))).append closed
  have option := Lexes.mark (by decide : (':', TokenKind.colon) ∈ _) (rest.space (by simp))
  have word : isWord "default".toList = true ∧ keyword "default".toList = .identifier := ⟨rfl, rfl⟩
  have optional := (Lexes.word word (Scan.stops_cons.mpr (by decide))).append option
  have paren := Lexes.mark (by decide : ('(', TokenKind.leftParen) ∈ _) optional
  have literal : isWord "table".toList = true ∧ keyword "table".toList = .tableKw := ⟨rfl, rfl⟩
  have value := (Lexes.word literal (Scan.stops_cons.mpr (by decide))).append paren
  have assigned := (value.equal (by simp)).space (by simp)
  have typed := (type.meaning.display_lexes _ (Scan.stops_cons.mpr
    (by decide : isNameContinue ' ' = false))).append assigned
  have declared := Lexes.mark (by decide : (':', TokenKind.colon) ∈ _) (typed.space (by simp))
  have named := Lexes.name name declared (Scan.stops_cons.mpr (by decide))
  have opening : isWord "model".toList = true ∧ keyword "model".toList = .modelKw := ⟨rfl, rfl⟩
  have begun := (Lexes.word opening (Scan.stops_cons.mpr (by decide))).append (named.space (by simp))
  have text : renderModelWitness name type table = "model".toList ++ ' ' :: (name.text.toList ++
      ':' :: ' ' :: (type.meaning.display.toList ++ ' ' :: '=' :: ' ' :: ("table".toList ++ '(' ::
        ("default".toList ++ ':' :: ' ' :: (printExpression table.defaultValue.expr ++ ')' :: ' ' ::
          '\x7b' :: '\n' :: ((table.entries.map printEntry).flatten ++ "\x7d;\n".toList)))))) := by
    show "model ".toList ++ (name.text.toList ++ (": ".toList ++ (type.display.toList ++
      (" = ".toList ++ (("table(default: ".toList ++ (printValue table.defaultValue ++
        (") \x7b\n".toList ++ ((table.entries.map printEntry).flatten ++ ['\x7d'])))) ++
          ";\n".toList))))) = _
    simp [RuntimeType.display_meaning, printValue_expr]
  have tokens : modelLexemes name type table = [(.modelKw, "model".toList)] ++ name.lexeme ::
      (.colon, [':']) :: (type.meaning.lexemes ++ (.equal, ['=']) :: ([(.tableKw, "table".toList)] ++
        (.leftParen, ['(']) :: ([(.identifier, "default".toList)] ++ (.colon, [':']) ::
          (table.defaultValue.expr.lexemes ++ (.rightParen, [')']) :: (.leftBrace, ['\x7b']) ::
            (tableEntriesLexemes table.entries ++
              [(.rightBrace, ['\x7d']), (.semicolon, [';'])]))))) := by
    simp [modelLexemes, tableLexemes]
  exact text ▸ tokens ▸ begun

def defaultName : Identifier := ⟨"default", by decide⟩

/-- The parsed line of a table has the key and the value. -/
structure TableEntryOf (found : TableEntry) (entry : SurfaceValue × SurfaceValue) : Prop where
  key : found.key.strip = entry.1.expr.strip
  value : found.value.strip = entry.2.expr.strip

/-- The parsed literal is that of the table. -/
structure TableLiteralOf (found : TableLiteral) (table : SurfaceTable) : Prop where
  rest : found.defaultValue.strip = table.defaultValue.expr.strip
  entries : Forall₂ TableEntryOf found.entries table.entries

/-- The table is of expressions that are read back. -/
structure SurfaceTable.Readable (table : SurfaceTable) : Prop where
  rest : table.defaultValue.expr.readable = true
  entries : ∀ entry ∈ table.entries, entry.1.expr.readable = true ∧ entry.2.expr.readable = true

theorem reads_tableEntry {entry : SurfaceValue × SurfaceValue}
    (readable : entry.1.expr.readable = true ∧ entry.2.expr.readable = true) {fuel : Nat}
    (comma : headKind rest = some .comma)
    (enough : rest.length + (tableEntryLexemes entry).length < fuel) :
    Reads (tableEntry fuel) (tableEntryLexemes entry) rest fun found =>
      TableEntryOf found entry := by
  simp only [tableEntryLexemes, length_cons, length_append] at enough
  obtain ⟨kind, first, starts⟩ := headKind_lexemes entry.1.expr
    ((.colon, [':']) :: entry.2.expr.lexemes ++ rest)
  have opened : kind ≠ .eof := by
    rintro rfl
    cases starts
  rw [← append_assoc] at first
  refine Reads.peek first ?_
  rw [nonempty, if_pos (by simpa using opened), pure_bind]
  apply ((readsBack entry.1.expr readable.1).expr rfl (by decide) (by simp; omega)).bind
  intro key keyed
  apply (reads_take (by simp [lexemes_ne_nil])).cons
  intro _ _
  apply ((readsBack entry.2.expr readable.2).expr comma (by decide) (by simp; omega)).last
  intro value valued
  exact reads_pure ⟨keyed, valued⟩

theorem entries_le_tableLexemes (entries : List (SurfaceValue × SurfaceValue)) :
    entries.length ≤ (tableEntriesLexemes entries).length := by
  induction entries with
  | nil => simp
  | cons entry entries ih =>
    simp only [tableEntriesLexemes, flatMap_cons, length_append, length_cons, length_nil] at ih ⊢
    omega

/-- A printed table is parsed. -/
theorem reads_tableLiteral {table : SurfaceTable} (readable : table.Readable) {fuel : Nat}
    (more : rest ≠ []) (enough : rest.length + (tableLexemes table).length < fuel) :
    Reads (tableLiteral fuel) (tableLexemes table) rest fun found => TableLiteralOf found table := by
  simp only [tableLexemes, length_cons, length_append, length_nil] at enough
  have entries : Reads (separatedItems .rightBrace
        "expected `,` or `\x7d` after a table entry" (tableEntry fuel) fuel)
      (tableEntriesLexemes table.entries) ((.rightBrace, ['\x7d']) :: rest)
      fun found => Forall₂ TableEntryOf found table.entries := by
    have counted := entries_le_tableLexemes table.entries
    apply separatedItems_all rfl _ _ (by omega)
    · intro entry member after comma fits
      apply reads_tableEntry (readable.entries entry member) comma
      rw [← tableEntriesLexemes] at fits
      simp only [length_append, length_cons] at fits
      omega
    · intro entry member
      obtain ⟨kind, first, starts⟩ := headKind_lexemes entry.1.expr
        ((.colon, [':']) :: entry.2.expr.lexemes)
      refine ⟨kind, first, ?_⟩
      rintro rfl
      cases starts
  apply (reads_take (by simp)).cons
  intro first _
  apply (reads_take (by simp)).cons
  intro _ _
  apply (reads_takeIdentifier defaultName (by simp)).cons
  intro option named
  have known : defaultOption option = pure () := by
    rw [defaultOption, if_pos (by rw [named]; rfl)]
  rw [known, pure_bind]
  apply (reads_take (by simp [lexemes_ne_nil])).cons
  intro _ _
  apply ((readsBack table.defaultValue.expr readable.rest).expr rfl (by decide) _).bind
  · intro value valued
    apply (reads_take (by simp)).cons
    intro _ _
    apply (reads_take (by simp)).cons
    intro _ _
    apply Reads.bind (by simpa using entries)
    intro items known
    apply (reads_take more).last
    intro close _
    exact reads_pure ⟨valued, known⟩
  · simp only [length_append, length_cons, length_nil]
    omega

/-- A printed model is parsed with its table. -/
theorem parse_renderModelWitness (name : Identifier) {type : RuntimeType}
    (array : ∃ address key range, type = .table address key range) {table : SurfaceTable}
    (readable : table.Readable) :
    ∃ span info written literal, parse (renderModelWitness name type table) =
      .ok ⟨span, [.model ⟨info, name, written, some literal⟩]⟩ ∧
      written.strip = type.meaning.written ∧ TableLiteralOf literal table := by
  have reads : ∀ fuel, (modelLexemes name type table).length + 1 < fuel →
      Reads (declaration fuel) (modelLexemes name type table) [(.eof, [])]
        fun found => ∃ info written literal, found = .model ⟨info, name, written, some literal⟩ ∧
          written.strip = type.meaning.written ∧ TableLiteralOf literal table := by
    intro fuel enough
    simp only [modelLexemes, length_cons, length_append, length_nil] at enough
    have value : Reads (modelValue fuel) ((.equal, ['=']) :: tableLexemes table)
        [(.semicolon, [';']), (.eof, [])]
        fun found => ∃ literal, found = some literal ∧ TableLiteralOf literal table := by
      apply (reads_accept (by simp)).cons
      intro _ same
      rw [same, if_pos rfl]
      apply (reads_tableLiteral readable (by simp) (by simp; omega)).last
      intro literal known
      exact reads_pure ⟨literal, rfl, known⟩
    have whole : Reads (modelDecl fuel) (modelLexemes name type table) [(.eof, [])]
        fun model => ∃ info written literal, model = ⟨info, name, written, some literal⟩ ∧
          written.strip = type.meaning.written ∧ TableLiteralOf literal table := by
      apply (reads_take (by simp)).cons
      intro first _
      apply (reads_takeIdentifier name (by simp)).cons
      intro found named
      apply (reads_take (by simp)).cons
      intro _ _
      apply (type.meaning.written_reads fuel _ .equal rfl (by decide) (by omega)).bind
      intro written typed
      obtain ⟨address, key, range, rfl⟩ := array
      have shape : ∃ info first second, written = .table info first second := by
        cases written with
        | table info first second => exact ⟨info, first, second, rfl⟩
        | named | tuple => cases typed
      obtain ⟨info, one, two, rfl⟩ := shape
      rw [requireTable, pure_bind, ← cons_append]
      apply value.bind
      rintro _ ⟨literal, rfl, known⟩
      apply (reads_take (by simp)).last
      intro close _
      exact reads_node fun info => ⟨info, _, literal, by rw [named], typed, known⟩
    refine Reads.peek (show _ = some TokenKind.modelKw from rfl) ?_
    apply whole.map
    rintro _ ⟨info, written, literal, rfl, known⟩
    exact ⟨info, written, literal, rfl, known⟩
  obtain ⟨span, found, parsed, info, written, literal, rfl, known⟩ := parse_of_declaration
    (renderModelWitness_lexes name type table) (by decide) rfl (by decide) reads
  exact ⟨span, info, written, literal, parsed, known⟩

/-- The value is lifted to an expression that spells it. -/
structure Lifted (runtime : Runtime) (type : RuntimeType) (term : Term) (surface : SurfaceValue) :
    Prop where
  lifts : (liftValue term type).run runtime = .ok (surface, runtime)
  spells : Spells runtime surface.expr term type
  sort : term.sort? = some type.sort

theorem lifted_boolean (value : Bool) (address : Nat) :
    Lifted runtime (.boolean address) (.boolVal value) (.boolean value) := by
  refine ⟨?_, ⟨⟨address, rfl⟩, rfl⟩, ?_⟩ <;> cases value <;> rfl

theorem lifted_enumeration (formed : runtime.WellFormed) {declared : Identifier}
    (listed : RuntimeType.enumeration address declared ∈ runtime.objects)
    (found : runtime.enums.lookup declared = some info) {index : Nat}
    (inside : index < info.caseNames.length) :
    ∃ surface, Lifted runtime (.enumeration address declared) (info.value index) surface := by
  -- The first case with the value is taken, which need not be known to be this one.
  cases first : (List.range info.caseNames.length).find? fun other =>
      info.value index = info.value other with
  | none =>
    rw [find?_eq_none] at first
    exact absurd (decide_eq_true rfl) (first index (mem_range.mpr inside))
  | some other =>
    have same : info.value index = info.value other := by simpa using find?_some first
    have within : other < info.caseNames.length := mem_range.mp (mem_of_find?_eq_some first)
    refine ⟨.enumeration info other, ?_, .inl ⟨address, declared, info, other, rfl, found, ?_, same⟩,
      ?_⟩
    · simp only [liftValue, run_get_bind, found, first]
      rfl
    · rw [mk_mem_zipIdx_iff_getElem?, getD_eq_getElem?_getD, List.getElem?_eq_getElem within]
      rfl
    · have type := formed.enum_type listed found
      simp [EnumInfo.value, Term.sort?, Term.sorts?, FuncDecl.range?, type]

theorem lifted_pair {sequence : Nat} {first second : RuntimeType} {left right : Term}
    {one two : SurfaceValue} (here : Lifted runtime first left one)
    (there : Lifted runtime second right two) :
    Lifted runtime (.tuple address sequence first second)
      (pairOf (.tuple address sequence first second) left right) (.tuple [one, two]) where
  lifts := by
    rw [pairOf, liftValue, if_pos rfl]
    simp only [liftValues, bind_assoc, pure_bind]
    rw [run_bind_of_ok here.lifts, run_bind_of_ok there.lifts]
    rfl
  spells := ⟨address, sequence, first, second, [left, right], rfl, rfl, left, [right], first,
    [second], rfl, rfl, here.spells, right, [], second, [], rfl, rfl, there.spells, rfl, rfl⟩
  sort := by
    simp [pairOf, RuntimeType.tupleConstructor, Term.sort?, Term.sorts?, here.sort, there.sort,
      FuncDecl.range?, RuntimeType.sort]

theorem liftTable_falseTable (address : Nat) (key : RuntimeType) (boolean : Nat) :
    (liftTable address key (.boolean boolean) (falseTable key)).run runtime =
      .ok (⟨.boolean false, []⟩, runtime) := by
  have sort : (falseTable key).sort? = some (RuntimeType.table address key (.boolean boolean)).sort :=
    rfl
  rw [falseTable] at sort ⊢
  rw [liftTable, if_neg (by simp [sort]), run_bind_of_ok (lifted_boolean false boolean).lifts]
  rfl

theorem sort_store {at_ : Term} (sort : table.sort? = some (.array key.sort .bool))
    (keyed : at_.sort? = some key.sort) :
    (Term.app (.store key.sort .bool) [table, at_, .boolVal true]).sort? =
      some (.array key.sort .bool) := by
  have literal : (Term.boolVal true).sort? = some .bool := rfl
  simp [Term.sort?, Term.sorts?, sort, keyed, literal, FuncDecl.range?]

theorem liftTable_storeAll (each : Forall₂ (Lifted runtime key) keys surfaces)
    {lifted : SurfaceTable}
    (start : (liftTable address key (.boolean boolean) table).run runtime = .ok (lifted, runtime))
    (sort : table.sort? = some (.array key.sort .bool)) :
    (liftTable address key (.boolean boolean) (storeAll key table keys)).run runtime =
      .ok (⟨lifted.defaultValue, lifted.entries ++ surfaces.map (·, .boolean true)⟩, runtime) := by
  induction each generalizing table lifted with
  | nil => simpa [storeAll] using start
  | @cons at_ surface keys surfaces head tail ih =>
    have sorted := sort_store sort head.sort
    have stored : (liftTable address key (.boolean boolean)
        (.app (.store key.sort .bool) [table, at_, .boolVal true])).run runtime =
          .ok (⟨lifted.defaultValue, lifted.entries ++ [(surface, .boolean true)]⟩, runtime) := by
      rw [liftTable, if_neg (by rw [sorted]; simp [RuntimeType.sort]), run_bind_of_ok start,
        run_bind_of_ok head.lifts, run_bind_of_ok (lifted_boolean true boolean).lifts]
      rfl
    have later := ih stored sorted
    rw [storeAll, foldl_cons, ← storeAll, later]
    simp

/-- The lines of stores of true are read as the stores. -/
theorem tableEntries_storeAll (formed : runtime.WellFormed) (listed : key ∈ runtime.objects)
    (truths : RuntimeType.boolean boolean ∈ runtime.objects)
    (each : Forall₂ (Lifted runtime key) keys surfaces) (distinct : keys.Nodup)
    {entries : List TableEntry}
    (of : Forall₂ TableEntryOf entries (surfaces.map (·, .boolean true))) {seen : List Term}
    (fresh : ∀ at_ ∈ keys, at_ ∉ seen) (table : Term) :
    (tableEntries key (.boolean boolean) seen table entries).run runtime =
      .ok (storeAll key table keys, runtime) := by
  induction each generalizing entries seen table with
  | nil =>
    cases of
    rfl
  | @cons at_ surface keys surfaces head tail ih =>
    rw [map_cons, forall₂_cons_right_iff] at of
    obtain ⟨entry, rest, ⟨keyed, valued⟩, others, rfl⟩ := of
    rw [nodup_cons] at distinct
    have here : (value entry.key key).run runtime = .ok (at_, runtime) := by
      apply value_spelled formed _ listed
      rw [← spells_strip, keyed, spells_strip]
      exact head.spells
    have there : (value entry.value (.boolean boolean)).run runtime =
        .ok (.boolVal true, runtime) := by
      apply value_spelled formed _ truths
      rw [← spells_strip, valued, spells_strip]
      exact (lifted_boolean true boolean).spells
    have still : ∀ other ∈ keys, other ∉ at_ :: seen := by
      intro other member
      rw [mem_cons, not_or]
      refine ⟨?_, fresh other (mem_cons_of_mem _ member)⟩
      rintro rfl
      exact distinct.1 member
    have later := ih distinct.2 others still
      (.app (.store key.sort .bool) [table, at_, .boolVal true])
    rw [tableEntries, run_bind_of_ok here, if_neg (fresh at_ mem_cons_self), run_bind_of_ok there]
    exact later

/-- The array is lifted to the table, and read as itself from its text. -/
def BisimulationQuery.ReadsBack (query : BisimulationQuery) (runtime : Runtime)
    (canonical : Term) (lifted : SurfaceTable) : Prop :=
  ∃ address key range document, query.relation.type = .table address key range ∧
    (liftTable address key range canonical).run runtime = .ok (lifted, runtime) ∧
    parse (renderModelWitness query.name query.relation.type lifted) = .ok document ∧
    (witnessTable query.name query.relation.type document).run runtime = .ok (canonical, runtime)

/-- Stores of true at different lifted keys are read back. -/
theorem BisimulationQuery.Valid.readsBack {query : BisimulationQuery} (valid : query.Valid runtime)
    (formed : runtime.WellFormed) (each : Forall₂ (Lifted runtime query.domain) keys surfaces)
    (distinct : keys.Nodup) :
    ∃ lifted, query.ReadsBack runtime (storeAll query.domain (falseTable query.domain) keys)
      lifted := by
  obtain ⟨address, boolean, shape⟩ := valid.relationType
  have listed := valid.relation.listed
  rw [shape] at listed
  obtain ⟨-, domains, truths, -, -⟩ := formed.types.compound_lookup listed (.inr ⟨_, rfl⟩)
  have lifts := liftTable_storeAll each (liftTable_falseTable address query.domain boolean) rfl
  rw [nil_append] at lifts
  have readable : (⟨.boolean false, surfaces.map (·, .boolean true)⟩ : SurfaceTable).Readable := by
    refine ⟨rfl, fun entry member => ?_⟩
    obtain ⟨surface, inside, rfl⟩ := mem_map.mp member
    obtain ⟨key, -, lifted⟩ := exists_of_forall₂_right each inside
    exact ⟨lifted.spells.readable, rfl⟩
  obtain ⟨span, info, written, literal, parsed, typed, rest, entries⟩ :=
    parse_renderModelWitness query.name ⟨address, query.domain, .boolean boolean, shape⟩ readable
  refine ⟨_, address, query.domain, .boolean boolean, _, shape, lifts, parsed, ?_⟩
  have resolved := resolveType_written formed.types written valid.relation.listed typed
  have default_ : (value literal.defaultValue (.boolean boolean)).run runtime =
      .ok (.boolVal false, runtime) := by
    apply value_spelled formed _ truths
    rw [← spells_strip, rest, spells_strip]
    exact (lifted_boolean false boolean).spells
  have stores := tableEntries_storeAll formed domains truths each distinct entries
    (fun _ _ => not_mem_nil) (falseTable query.domain)
  rw [shape] at resolved ⊢
  rw [witnessTable]
  dsimp only
  rw [if_neg (not_not.mpr rfl), run_bind_of_ok resolved, RuntimeType.same_self]
  show (tableValue query.domain (.boolean boolean) literal).run runtime = _
  rw [tableValue, run_bind_of_ok default_]
  exact stores

/-- The result, the table and that it was read back. -/
def BisimulationQuery.report (query : BisimulationQuery) (table : SurfaceTable) : List String :=
  ["sat: z3 filled model-shaped hole " ++ query.name.text,
    String.ofList (renderModelWitness query.name query.relation.type table),
    "parse(print(lift(x))): exact ast identity"]

theorem BisimulationQuery.ReadsBack.returned {query : BisimulationQuery} {canonical : Term}
    {lifted : SurfaceTable} (back : query.ReadsBack runtime canonical lifted) (span : SourceSpan) :
    (returnWitness query span canonical).run runtime =
      .ok (0, { runtime with output := runtime.output ++ query.report lifted }) := by
  obtain ⟨address, key, range, document, shape, lifts, parsed, read⟩ := back
  rw [shape] at parsed read
  simp only [returnWitness, shape]
  rw [run_bind_of_ok lifts, parsed]
  dsimp only
  rw [run_bind_of_ok read, if_neg (not_not.mpr rfl), report, shape]
  rfl

theorem Runtime.WellFormed.enum_found (formed : runtime.WellFormed)
    (listed : RuntimeType.enumeration address name ∈ runtime.objects) :
    ∃ info, runtime.enums.lookup name = some info := by
  have known := formed.types.declared_lookup listed (.inl rfl)
  obtain ⟨info, found, -⟩ := formed.tables.enumeration _ _ _ (Map.mem_of_lookup known)
  exact ⟨info, found⟩

theorem state_case (free : runtime.Free interp) (found : runtime.enums.lookup name = some info)
    (state : State interp (.enumeration address name)) :
    ∃ index < info.caseNames.length, ∀ assignment,
      eval interp (info.value index) assignment = .plain state.1 := by
  obtain ⟨value, inside⟩ := state
  cases value with
  | bool | int => cases inside
  | pair => obtain ⟨_, _, same, -⟩ := inside; cases same
  | con constructor fields =>
    obtain ⟨_, cases, types, same, shapes, member, typed⟩ := inside
    cases same
    rw [free.enums _ _ found, Option.some.injEq] at shapes
    rw [← shapes] at member
    obtain ⟨item, within, same⟩ := mem_map.mp member
    cases same
    obtain rfl : fields = [] := by
      cases fields with
      | nil => rfl
      | cons => obtain ⟨_, _, none, -⟩ := typed; cases none
    obtain ⟨index, below, is⟩ := getElem_of_mem within
    refine ⟨index, below, fun assignment => ?_⟩
    simp [EnumInfo.value, eval_app, FuncDecl.apply, List.getElem?_eq_getElem below, is]

/-- A model is right about terms and Booleans; `unsat` means there is none. -/
def Finding.Correct (interp : Interp) (holes : List Const) (terms : List Term) : Finding → Prop
  | .sat evaluate => ∃ assignment : Assignment, assignment.Sorted interp.shapes holes ∧
    (∀ term ∈ terms, Models interp term assignment) ∧
    ∀ term : Term, term.sort? = some .bool → term.quantifierFree = true →
      (∀ constant ∈ term.constants, constant ∈ holes) →
      ∃ truth, evaluate term = .boolVal truth ∧ (truth = true ↔ Models interp term assignment)
  | .unsat => ∀ assignment : Assignment, assignment.Sorted interp.shapes holes →
    ¬ ∀ term ∈ terms, Models interp term assignment
  | .unknown _ => True

theorem Binding.Valid.closed_constants {table : Binding} (valid : table.Valid runtime name)
    (closed : table.isModel = false) : table.value.constants = [] := by
  obtain ⟨-, _, _, _, -, ⟨isOpen, -⟩ | ⟨-, array⟩⟩ := valid
  · rw [closed] at isOpen
    cases isOpen
  · exact array.constants

namespace BisimulationQuery

variable {query : BisimulationQuery}

/-- A bisimulation of the two systems that relates the pair. -/
def Bisimilar (query : BisimulationQuery) (interp : Interp) (assignment : Assignment)
    (relation : State interp query.left → State interp query.right → Prop)
    (a : State interp query.left) (b : State interp query.right) : Prop :=
  IsBisimulation (query.leftSystem interp assignment) (query.rightSystem interp assignment)
    relation ∧ relation a b

def Closed (query : BisimulationQuery) : Prop :=
  ∀ table ∈ [query.leftStep, query.rightStep, query.leftLabel, query.rightLabel],
    table.isModel = false

theorem Valid.relation_hole (valid : query.Valid runtime) :
    query.relation.value = .constant ⟨query.name.text, query.relation.type.sort⟩ := by
  obtain ⟨-, _, _, _, -, ⟨-, hole⟩ | ⟨closed, -⟩⟩ := valid.relation
  · exact hole
  · rw [valid.open_] at closed
    cases closed

/-- The cells of the model at pairs of states say what the relation does. -/
theorem Valid.cell (valid : query.Valid runtime)
    (right : ∀ term : Term, term.sort? = some .bool → term.quantifierFree = true →
      (∀ constant ∈ term.constants, constant ∈ query.holes) →
      ∃ truth, evaluate term = .boolVal truth ∧ (truth = true ↔ Models interp term assignment))
    {key : Term} (ground : GroundValue runtime key query.domain)
    (sort : key.sort? = some query.domain.sort) :
    ∃ truth, evaluate (selectOf query.domain query.relation.value key) = .boolVal truth ∧
      (truth = true ↔ entryAt (eval interp query.relation.value assignment)
        (eval interp key assignment).toValue = .bool true) := by
  obtain ⟨address, boolean, shape⟩ := valid.relationType
  have hole := valid.relation_hole
  have sorted : (selectOf query.domain query.relation.value key).sort? = some .bool := by
    rw [hole, shape]
    simp [selectOf, Term.sort?, Term.sorts?, sort, FuncDecl.range?, RuntimeType.sort]
  have plain : (selectOf query.domain query.relation.value key).quantifierFree = true := by
    rw [hole]
    simp [selectOf, Term.quantifierFree, ground.quantifierFree]
  have inside : ∀ constant ∈ (selectOf query.domain query.relation.value key).constants,
      constant ∈ query.holes := by
    intro constant member
    simp only [selectOf, Term.constants, Term.constantsAll, ground.constants, append_nil] at member
    exact mem_append_left _ member
  obtain ⟨truth, cell, holds⟩ := right _ sorted plain inside
  exact ⟨truth, cell, holds.trans (models_selectOf _ _ _)⟩

/-- The enumerations are declared, and pairs of their values are different. -/
theorem Valid.states (valid : query.Valid runtime) (formed : runtime.WellFormed) :
    ∃ left right, (∃ address name, query.left = .enumeration address name ∧
        runtime.enums.lookup name = some left) ∧
      (∃ address name, query.right = .enumeration address name ∧
        runtime.enums.lookup name = some right) ∧
      (pairsOfValues query.domain left right).Nodup ∧
      ∀ key ∈ pairsOfValues query.domain left right, GroundValue runtime key query.domain ∧
        ∃ surface, Lifted runtime query.domain key surface := by
  obtain ⟨address, boolean, shape⟩ := valid.relationType
  have listed := valid.relation.listed
  rw [shape] at listed
  obtain ⟨-, domains, -, -, -⟩ := formed.types.compound_lookup listed (.inr ⟨_, rfl⟩)
  obtain ⟨-, lefts, rights, -, -⟩ := formed.types.compound_lookup domains (.inl valid.domain)
  obtain ⟨leftAddress, leftName, leftIs⟩ := valid.left
  obtain ⟨rightAddress, rightName, rightIs⟩ := valid.right
  obtain ⟨place, sequence, pairs⟩ := valid.domain
  rw [leftIs] at lefts
  rw [rightIs] at rights
  obtain ⟨left, leftFound⟩ := formed.enum_found lefts
  obtain ⟨right, rightFound⟩ := formed.enum_found rights
  refine ⟨left, right, ⟨_, _, leftIs, leftFound⟩, ⟨_, _, rightIs, rightFound⟩,
    pairsOfValues_nodup (EnumInfo.values_nodup formed leftFound)
      (EnumInfo.values_nodup formed rightFound) _, fun key member => ?_⟩
  obtain ⟨first, inside, second, within, rfl⟩ := mem_pairsOfValues.mp member
  obtain ⟨one, here⟩ := lifted_enumeration formed lefts leftFound inside
  obtain ⟨two, there⟩ := lifted_enumeration formed rights rightFound within
  rw [pairs, leftIs, rightIs]
  exact ⟨.tuple (.enumeration leftFound inside) (.enumeration rightFound within), _,
    lifted_pair here there⟩

def cellTrue (query : BisimulationQuery) (evaluate : Term → Term) (key : Term) : Bool :=
  decide (evaluate (selectOf query.domain query.relation.value key) = .boolVal true)

/-- Where cells are the relation, so are the stores of true. -/
theorem stored_iff (free : runtime.Free interp) {lefts rights : EnumInfo}
    (left : ∃ address name, query.left = .enumeration address name ∧
      runtime.enums.lookup name = some lefts)
    (right : ∃ address name, query.right = .enumeration address name ∧
      runtime.enums.lookup name = some rights)
    (cells : ∀ key ∈ pairsOfValues query.domain lefts rights, truth key = true ↔
      entryAt (eval interp query.relation.value assignment)
        (eval interp key assignment).toValue = .bool true) (a : State interp query.left)
    (b : State interp query.right) :
    query.pairsOf interp (eval interp (storeAll query.domain (falseTable query.domain)
        ((pairsOfValues query.domain lefts rights).filter truth)) assignment) a b ↔
      query.pairsOf interp (eval interp query.relation.value assignment) a b := by
  rw [pairsOf, pairsOf, entryAt_storeAll _ (eval_falseTable _),
    or_iff_left (entryAt_falseTable _ _)]
  constructor
  · rintro ⟨key, member, is⟩
    obtain ⟨inside, holds⟩ := mem_filter.mp member
    rw [cells key inside, is] at holds
    exact holds
  · intro holds
    obtain ⟨leftAddress, leftName, leftIs, leftFound⟩ := left
    obtain ⟨rightAddress, rightName, rightIs, rightFound⟩ := right
    obtain ⟨a, inA⟩ := a
    obtain ⟨b, inB⟩ := b
    rw [leftIs] at inA
    rw [rightIs] at inB
    obtain ⟨first, inside, isFirst⟩ := state_case free leftFound ⟨a, inA⟩
    obtain ⟨second, within, isSecond⟩ := state_case free rightFound ⟨b, inB⟩
    have member : pairOf query.domain (lefts.value first) (rights.value second) ∈
        pairsOfValues query.domain lefts rights :=
      mem_pairsOfValues.mpr ⟨first, inside, second, within, rfl⟩
    have means : (eval interp (pairOf query.domain (lefts.value first) (rights.value second))
        assignment).toValue = .pair a b := by
      rw [eval_pairOf, isFirst, isSecond]
      rfl
    refine ⟨_, mem_filter.mpr ⟨member, (cells _ member).mpr ?_⟩, means⟩
    rw [means]
    exact holds

/-- A right model gives an array that is true where its relation is, and is read back. -/
theorem Valid.canonical (valid : query.Valid runtime) (formed : runtime.WellFormed)
    (free : runtime.Free interp) (span : SourceSpan)
    (right : ∀ term : Term, term.sort? = some .bool → term.quantifierFree = true →
      (∀ constant ∈ term.constants, constant ∈ query.holes) →
      ∃ truth, evaluate term = .boolVal truth ∧ (truth = true ↔ Models interp term assignment)) :
    ∃ canonical, (canonicalArray query span evaluate).run runtime = .ok (canonical, runtime) ∧
      (∃ lifted, query.ReadsBack runtime canonical lifted) ∧
      ∀ a b, query.pairsOf interp (eval interp canonical assignment) a b ↔
        query.pairsOf interp (eval interp query.relation.value assignment) a b := by
  obtain ⟨lefts, rights, leftKnown, rightKnown, distinct, keys⟩ := valid.states formed
  have cells : ∀ key ∈ pairsOfValues query.domain lefts rights,
      evaluate (selectOf query.domain query.relation.value key) =
        .boolVal (query.cellTrue evaluate key) ∧
      (query.cellTrue evaluate key = true ↔ entryAt (eval interp query.relation.value assignment)
          (eval interp key assignment).toValue = .bool true) := by
    intro key member
    obtain ⟨ground, surface, lifted⟩ := keys key member
    obtain ⟨known, cell, holds⟩ := valid.cell right ground lifted.sort
    have same : query.cellTrue evaluate key = known := by
      simp only [cellTrue, cell]
      cases known <;> rfl
    rw [same]
    exact ⟨cell, holds⟩
  refine ⟨storeAll query.domain (falseTable query.domain)
    ((pairsOfValues query.domain lefts rights).filter (query.cellTrue evaluate)), ?_, ?_,
    stored_iff free leftKnown rightKnown fun key member => (cells key member).2⟩
  · obtain ⟨leftAddress, leftName, leftIs, leftFound⟩ := leftKnown
    obtain ⟨rightAddress, rightName, rightIs, rightFound⟩ := rightKnown
    have one : (enumerationValues query.left).run runtime = .ok (lefts.values, runtime) := by
      rw [leftIs]
      simp only [enumerationValues, run_get_bind, leftFound]
      rfl
    have two : (enumerationValues query.right).run runtime = .ok (rights.values, runtime) := by
      rw [rightIs]
      simp only [enumerationValues, run_get_bind, rightFound]
      rfl
    rw [canonicalArray, run_bind_of_ok one, run_bind_of_ok two]
    exact canonicalCells_stores (fun key member => (cells key member).1) _
  · have chosen : ∀ key ∈ (pairsOfValues query.domain lefts rights).filter
        (query.cellTrue evaluate), ∃ surface, Lifted runtime query.domain key surface :=
      fun key member => (keys key (mem_of_mem_filter member)).2
    obtain ⟨surfaces, each⟩ := exists_forall₂ chosen
    exact valid.readsBack formed each (distinct.filter _)

noncomputable def tableOf (query : BisimulationQuery) (interp : Interp)
    (relation : State interp query.left → State interp query.right → Prop) : Element :=
  .table (open Classical in fun value =>
    if ∃ a b, relation a b ∧ value = .pair a.1 b.1 then .bool true else .bool false)

theorem pairsOf_tableOf (relation : State interp query.left → State interp query.right → Prop)
    (a : State interp query.left) (b : State interp query.right) :
    query.pairsOf interp (query.tableOf interp relation) a b ↔ relation a b := by
  simp only [pairsOf, tableOf, entryAt]
  by_cases holds : relation a b
  · rw [if_pos ⟨a, b, holds, rfl⟩]
    simp [holds]
  · have none : ¬ ∃ a' b', relation a' b' ∧ Value.pair a.1 b.1 = .pair a'.1 b'.1 := by
      rintro ⟨a', b', holds', same⟩
      rw [Value.pair.injEq] at same
      rw [Subtype.ext same.1, Subtype.ext same.2] at holds
      exact holds holds'
    rw [if_neg none]
    simp [holds]

theorem Valid.tableOf_inhabits (valid : query.Valid runtime)
    (relation : State interp query.left → State interp query.right → Prop) :
    (query.tableOf interp relation).Inhabits interp.shapes query.relation.type.meaning := by
  obtain ⟨address, boolean, shape⟩ := valid.relationType
  obtain ⟨place, sequence, pairs⟩ := valid.domain
  rw [shape]
  refine ⟨query.domain.meaning, .bool, rfl, fun value _ => ?_, fun value outside => ?_⟩
  · dsimp only
    split
    · rfl
    · rfl
  · dsimp only
    rw [if_neg]
    · rfl
    · rintro ⟨a, b, -, rfl⟩
      apply outside
      rw [pairs]
      exact ⟨_, _, rfl, a.2, b.2⟩

/-- With closed tables a bisimulation satisfies the asserted terms. -/
theorem Valid.satisfied (valid : query.Valid runtime) (free : runtime.Free interp)
    (closed : query.Closed) {a : State interp query.left} {b : State interp query.right}
    (initial : ∀ assignment, eval interp query.initial assignment = .plain (.pair a.1 b.1))
    {relation : State interp query.left → State interp query.right → Prop}
    (bisimilar : query.Bisimilar interp assignment relation a b) :
    ∃ other : Assignment, other.Sorted interp.shapes query.holes ∧
      ∀ entry ∈ query.assertions, Models interp entry.2 other := by
  have none : ∀ table ∈ [query.leftStep, query.rightStep, query.leftLabel, query.rightLabel],
      table.value.constants = [] := by
    intro table member
    have known : ∃ name, table.Valid runtime name := by
      simp only [mem_cons, not_mem_nil, or_false] at member
      rcases member with rfl | rfl | rfl | rfl
      · exact valid.leftStep
      · exact valid.rightStep
      · exact valid.leftLabel
      · exact valid.rightLabel
    exact known.choose_spec.closed_constants (closed table member)
  simp only [forall_mem_cons, not_mem_nil, false_implies, implies_true, and_true] at none
  obtain ⟨leftStep, rightStep, leftLabel, rightLabel⟩ := none
  have hole := valid.relation_hole
  generalize changed : assignment.update [⟨query.name.text, query.relation.type.sort⟩]
    [query.tableOf interp relation] = other
  have means : eval interp query.relation.value other = query.tableOf interp relation := by
    rw [hole, ← changed]
    exact update_cons_self _ _ _ _
  have sorted : other.Sorted interp.shapes query.holes := by
    intro constant member
    simp only [holes, leftStep, rightStep, leftLabel, rightLabel, hole, Term.constants,
      append_nil, mem_singleton] at member
    rw [member, ← changed, update_cons_self]
    exact valid.tableOf_inhabits relation
  have same : ∀ {table : Term}, table.constants = [] →
      eval interp table other = eval interp table assignment := by
    intro table none
    apply eval_congr
    simp [none]
  have left : query.leftSystem interp other = query.leftSystem interp assignment := by
    simp only [leftSystem, same leftStep, same leftLabel]
  have right : query.rightSystem interp other = query.rightSystem interp assignment := by
    simp only [rightSystem, same rightStep, same rightLabel]
  refine ⟨other, sorted, (valid.assertions_iff free sorted initial).mpr ?_⟩
  rw [means, left, right]
  exact ⟨(isBisimulation_congr (pairsOf_tableOf relation)).mpr bisimilar.1,
    (pairsOf_tableOf relation a b).mpr bisimilar.2⟩

end BisimulationQuery

/-- A relation satisfies the asserted terms exactly when it is a bisimulation of the two systems
with the initial pair. From a model the array assembled from its cells is the model's relation, is
printed, parsed and read as the same array, is such a bisimulation, and its table is written. When
there is no model the solve declaration is rejected, no relation of the holes is a bisimulation, and
with closed tables of steps and labels none at all is. Nothing is returned otherwise. -/
theorem executeBisimulation_exact (reached : Reached runtime) {solve : SolveDecl}
    {query : BisimulationQuery}
    (ran : (bisimulationQuery solve).run runtime = .ok (query, later))
    (free : runtime.Free interp) :
    ∃ (a : State interp query.left) (b : State interp query.right),
      (∀ assignment, eval interp query.initial assignment = .plain (.pair a.1 b.1)) ∧
      (∀ assignment : Assignment, assignment.Sorted interp.shapes query.holes →
        ((∀ entry ∈ query.assertions, Models interp entry.2 assignment) ↔
          query.Bisimilar interp assignment
            (query.pairsOf interp (eval interp query.relation.value assignment)) a b)) ∧
      ∀ finder : Finder,
        (finder runtime.context (query.assertions.map Prod.snd)).Correct interp query.holes
          (query.assertions.map Prod.snd) →
        (∀ evaluate, finder runtime.context (query.assertions.map Prod.snd) = .sat evaluate →
          ∃ (assignment : Assignment) (canonical : Term) (lifted : SurfaceTable),
            assignment.Sorted interp.shapes query.holes ∧
            (canonicalArray query solve.info.span evaluate).run runtime =
              .ok (canonical, runtime) ∧
            (∀ x y, query.pairsOf interp (eval interp canonical assignment) x y ↔
              query.pairsOf interp (eval interp query.relation.value assignment) x y) ∧
            query.ReadsBack runtime canonical lifted ∧
            query.Bisimilar interp assignment
              (query.pairsOf interp (eval interp canonical assignment)) a b ∧
            (executeBisimulation finder solve).run runtime =
              .ok (0, { runtime with output := runtime.output ++ query.report lifted })) ∧
        (finder runtime.context (query.assertions.map Prod.snd) = .unsat →
          (executeBisimulation finder solve).run runtime =
            .error (.semantic solve.info.span "bisimulation model hole was unsatisfiable") ∧
          ∀ assignment : Assignment,
            (assignment.Sorted interp.shapes query.holes → ¬ query.Bisimilar interp assignment
              (query.pairsOf interp (eval interp query.relation.value assignment)) a b) ∧
            (query.Closed → ∀ relation, ¬ query.Bisimilar interp assignment relation a b)) ∧
        ∀ reason, finder runtime.context (query.assertions.map Prod.snd) = .unknown reason →
          (executeBisimulation finder solve).run runtime =
            .error (.semantic solve.info.span
              ("bisimulation model hole was unknown: " ++ reason)) := by
  have formed := reached.inOrder.formed
  obtain ⟨rfl, valid⟩ := bisimulationQuery_ok formed reached.bound ran
  obtain ⟨a, b, initial⟩ := valid.initial_pair free
  have exact_ : ∀ assignment : Assignment, assignment.Sorted interp.shapes query.holes →
      ((∀ entry ∈ query.assertions, Models interp entry.2 assignment) ↔
        query.Bisimilar interp assignment
          (query.pairsOf interp (eval interp query.relation.value assignment)) a b) :=
    fun assignment sorted => valid.assertions_iff free sorted initial
  refine ⟨a, b, initial, exact_, fun finder correct => ⟨fun evaluate found => ?_,
    fun found => ⟨?_, ?_⟩, fun reason found => ?_⟩⟩
  · rw [found] at correct
    obtain ⟨assignment, sorted, models, right⟩ := correct
    have holds : ∀ entry ∈ query.assertions, Models interp entry.2 assignment :=
      fun entry member => models _ (mem_map_of_mem member)
    obtain ⟨canonical, assembled, ⟨lifted, back⟩, same⟩ :=
      valid.canonical formed free solve.info.span right
    obtain ⟨bisimulation, related⟩ := (exact_ assignment sorted).mp holds
    refine ⟨assignment, canonical, lifted, sorted, assembled, same, back,
      ⟨(isBisimulation_congr same).mpr bisimulation, (same a b).mpr related⟩, ?_⟩
    rw [executeBisimulation, run_bind_of_ok ran, run_get_bind, found]
    dsimp only
    rw [run_bind_of_ok assembled, back.returned]
  · rw [executeBisimulation, run_bind_of_ok ran, run_get_bind, found]
    rfl
  · rw [found] at correct
    have none : ∀ assignment : Assignment, assignment.Sorted interp.shapes query.holes →
        ¬ ∀ entry ∈ query.assertions, Models interp entry.2 assignment := by
      intro assignment sorted holds
      apply correct assignment sorted
      intro term member
      obtain ⟨entry, inside, rfl⟩ := mem_map.mp member
      exact holds entry inside
    refine fun assignment => ⟨fun sorted bisimilar => ?_, fun closed relation bisimilar => ?_⟩
    · exact none assignment sorted ((exact_ assignment sorted).mpr bisimilar)
    · obtain ⟨other, sorted, holds⟩ := valid.satisfied free closed initial bisimilar
      exact none other sorted holds
  · rw [executeBisimulation, run_bind_of_ok ran, run_get_bind, found]
    rfl

theorem reached_forM (reached : Reached runtime) {declarations : List Declaration}
    (run : (declarations.forM declare).run runtime = .ok ((), later)) : Reached later := by
  induction declarations generalizing runtime with
  | nil => cases run; exact reached
  | cons declaration declarations ih =>
    have split_ : (declare declaration >>= fun _ => declarations.forM declare).run runtime =
        .ok ((), later) := run
    obtain ⟨_, _, first, run⟩ := run_bind_ok split_
    exact ih (.declared reached first) run

namespace Lights

/-- The type of lights. -/
def light : Identifier := ⟨"Light", by decide⟩

/-- A light that is off. -/
def off : Identifier := ⟨"Off", by decide⟩

/-- A light that is on. -/
def on : Identifier := ⟨"On", by decide⟩

/-- The steps of a light. -/
def step : Identifier := ⟨"step", by decide⟩

def lit : Identifier := ⟨"lit", by decide⟩

def same : Identifier := ⟨"same", by decide⟩

/-- The written type of tables of pairs of lights. -/
def pairsType : TypeSyntax :=
  .table {} (.tuple {} [.named {} light, .named {} light]) (.named {} boolName)

/-- An enumeration, its steps and labels, and an open relation. -/
def declarations : List Declaration :=
  [.enum ⟨{}, light, [⟨{}, off, []⟩, ⟨{}, on, []⟩]⟩,
    .letBinding ⟨{}, step, pairsType, ⟨{}, .boolean {} false,
      [⟨{}, .tuple {} [.name {} off, .name {} on], .boolean {} true⟩,
        ⟨{}, .tuple {} [.name {} on, .name {} off], .boolean {} true⟩]⟩⟩,
    .letBinding ⟨{}, lit, .table {} (.named {} light) (.named {} boolName),
      ⟨{}, .boolean {} false, [⟨{}, .name {} on, .boolean {} true⟩]⟩⟩,
    .model ⟨{}, same, pairsType, none⟩]

def solve : SolveDecl where
  info := {}
  name := ⟨"bisimulation", by decide⟩
  takes := [⟨{}, ⟨"relation", by decide⟩, .name {} same⟩,
    ⟨{}, ⟨"left_step", by decide⟩, .name {} step⟩, ⟨{}, ⟨"right_step", by decide⟩, .name {} step⟩,
    ⟨{}, ⟨"left_label", by decide⟩, .name {} lit⟩, ⟨{}, ⟨"right_label", by decide⟩, .name {} lit⟩,
    ⟨{}, ⟨"initial", by decide⟩, .tuple {} [.name {} off, .name {} off]⟩]
  gives := .name {} same

def start : Runtime :=
  match (declarations.forM declare).run .initial with
  | .ok (_, runtime) => runtime
  | .error _ => .initial

def lights : Interp where
  shapes name := if name = light then some [(off, []), (on, [])] else none
  function _ _ := default
  relation _ _ := False
  outside _ _ _ := default

theorem start_ran : (declarations.forM declare).run .initial = .ok ((), start) := by
  have accepted : ((declarations.forM declare).run .initial).isOk = true := by decide +kernel
  unfold start
  cases result : (declarations.forM declare).run .initial with
  | ok => rfl
  | error => rw [result] at accepted; cases accepted

theorem start_free : start.Free lights where
  datatypes name info found := by
    have none : start.datatypes.length = 0 := by decide +kernel
    rw [length_eq_zero_iff.mp none] at found
    cases found
  enums name info found := by
    have enums : (start.enums.map fun entry => (entry.1, entry.2.caseNames)) =
        [(light, [off, on])] := by decide +kernel
    have member : (name, info.caseNames) ∈ start.enums.map fun entry =>
        (entry.1, entry.2.caseNames) :=
      mem_map.mpr ⟨_, Map.mem_of_lookup found, rfl⟩
    rw [enums, mem_singleton, Prod.mk.injEq] at member
    rw [member.1, member.2]
    rfl

end Lights

/-- A relation of the lights satisfies the terms just if it is a bisimulation. -/
theorem executeBisimulation_exact_lights : ∃ query later,
    (bisimulationQuery Lights.solve).run Lights.start = .ok (query, later) ∧
    ∃ a b, ∀ assignment : Assignment, assignment.Sorted Lights.lights.shapes query.holes →
      ((∀ entry ∈ query.assertions, Models Lights.lights entry.2 assignment) ↔
        query.Bisimilar Lights.lights assignment (query.pairsOf Lights.lights
          (eval Lights.lights query.relation.value assignment)) a b) := by
  have accepted : ((bisimulationQuery Lights.solve).run Lights.start).isOk = true := by
    decide +kernel
  cases result : (bisimulationQuery Lights.solve).run Lights.start with
  | error => rw [result] at accepted; cases accepted
  | ok found =>
    obtain ⟨a, b, -, exact_, -⟩ := executeBisimulation_exact
      (reached_forM .initial Lights.start_ran) result Lights.start_free
    exact ⟨found.1, found.2, rfl, a, b, exact_⟩

end Fine.RuntimeDetail
