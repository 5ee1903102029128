import Fine.Runtime.Induction
import Fine.Runtime.Values
import Fine.Syntax.Witness

/-!
# Counterexamples are read back

A counterexample is printed with types and lifted values, parsed, and every entry elaborated again.
-/

namespace Fine.RuntimeDetail

open Fine.Syntax Fine.Semantics Fine.Fallible List

variable {runtime later : Runtime}

def entryLexemes (entry : Formal × Expr) : List Lexeme :=
  entry.1.name.lexeme :: (.colon, [':']) :: (entry.1.type.meaning.lexemes ++
    (.equal, ['=']) :: (entry.2.lexemes ++ [(.semicolon, [';'])]))

def counterexampleLexemes (name : Identifier) (entries : List (Formal × Expr)) : List Lexeme :=
  (.counterexampleKw, "counterexample".toList) :: name.lexeme :: (.leftBrace, ['\x7b']) ::
    (entries.flatMap entryLexemes ++ [(.rightBrace, ['\x7d'])])

theorem counterexampleLine_lexes (formal : Formal) (value : Expr) (rest : SourceText) :
    Lexes (counterexampleLine formal value ++ rest) (entryLexemes (formal, value))
      ('\n' :: rest) := by
  have close : Lexes (';' :: '\n' :: rest) [(.semicolon, [';'])] ('\n' :: rest) :=
    Lexes.punctuation (by decide) _
  have assigned := (printExpression_lexes value (';' :: '\n' :: rest)
    (Scan.stops_cons.mpr (by decide))).append close
  have right := (assigned.equal (by simp)).space (by simp)
  have typed := (formal.type.meaning.display_lexes _ (Scan.stops_cons.mpr
    (by decide : isNameContinue ' ' = false))).append right
  have declared := Lexes.mark (by decide : (':', TokenKind.colon) ∈ _) (typed.space (by simp))
  have named := Lexes.name formal.name declared (Scan.stops_cons.mpr (by decide))
  have indented := (named.space (by simp)).space (by simp)
  simpa [counterexampleLine, entryLexemes, RuntimeType.display_meaning] using indented

theorem counterexampleLines_lexes (formals : List Formal) (values : List Expr) :
    Lexes ('\n' :: ((List.zipWith counterexampleLine formals values).flatten ++ "\x7d\n".toList))
      ((formals.zip values).flatMap entryLexemes ++ [(.rightBrace, ['\x7d'])]) ['\n'] := by
  induction formals generalizing values with
  | nil =>
    have close : Lexes ('\x7d' :: ['\n']) [(.rightBrace, ['\x7d'])] ['\n'] :=
      Lexes.punctuation (by decide) _
    exact Lexes.blank (by decide) close (by simp)
  | cons formal formals ih =>
    cases values with
    | nil =>
      have close : Lexes ('\x7d' :: ['\n']) [(.rightBrace, ['\x7d'])] ['\n'] :=
        Lexes.punctuation (by decide) _
      exact Lexes.blank (by decide) close (by simp)
    | cons value values =>
      have line := (counterexampleLine_lexes formal value _).append (ih values)
      have next := Lexes.blank (by decide : isBlank '\n' = true) line (by simp [entryLexemes])
      simpa using next

theorem counterexampleSource_lexes (name : Identifier) (formals : List Formal)
    (values : List Expr) :
    Lexes (counterexampleSource name formals values)
      (counterexampleLexemes name (formals.zip values)) ['\n'] := by
  have lines := counterexampleLines_lexes formals values
  have body := (Lexes.mark (by decide : ('\x7b', TokenKind.leftBrace) ∈ _) lines).space (by simp)
  have named := Lexes.name name body (Scan.stops_cons.mpr (by decide))
  have word : isWord "counterexample".toList = true ∧
      keyword "counterexample".toList = .counterexampleKw := ⟨rfl, rfl⟩
  have begun := (Lexes.word word (Scan.stops_cons.mpr (by decide))).append (named.space (by simp))
  have text : counterexampleSource name formals values = "counterexample".toList ++
      ' ' :: (name.text.toList ++ ' ' :: '\x7b' :: '\n' ::
        ((List.zipWith counterexampleLine formals values).flatten ++ "\x7d\n".toList)) := by
    show "counterexample ".toList ++ (name.text.toList ++ (" \x7b\n".toList ++ _)) = _
    simp
  exact text ▸ begun

/-- The entry names the parameter, its type and the value. -/
structure EntryOf (found : CounterexampleEntry) (entry : Formal × Expr) : Prop where
  name : found.name = entry.1.name
  type : found.type.strip = entry.1.type.meaning.written
  value : found.value.strip = entry.2.strip

theorem reads_counterexampleEntry {entry : Formal × Expr} (readable : entry.2.readable = true)
    {fuel : Nat} {rest : List Lexeme} (more : rest ≠ [])
    (enough : rest.length + (entryLexemes entry).length < fuel) :
    Reads (counterexampleEntry fuel) (entryLexemes entry) rest fun found =>
      EntryOf found entry := by
  simp only [entryLexemes, length_cons, length_append, length_nil] at enough
  apply (reads_takeIdentifier entry.1.name (by simp)).cons
  intro name named
  apply (reads_take (by simp)).cons
  intro _ _
  apply (entry.1.type.meaning.written_reads fuel _ .equal rfl (by decide) (by omega)).bind
  intro type typed
  apply (reads_take (by simp [lexemes_ne_nil])).cons
  intro _ _
  apply ((readsBack entry.2 readable).expr rfl (by decide) _).bind
  · intro value valued
    apply (reads_take more).last
    intro _ _
    exact reads_pure ⟨named, typed, valued⟩
  · simp only [length_append, length_cons, length_nil]
    omega

theorem entries_le_lexemes (entries : List (Formal × Expr)) :
    entries.length ≤ (entries.flatMap entryLexemes).length := by
  induction entries with
  | nil => simp
  | cons entry entries ih =>
    simp only [flatMap_cons, length_append, length_cons, entryLexemes]
    omega

/-- A printed counterexample is parsed with its entries. -/
theorem parse_counterexampleSource (name : Identifier) (formals : List Formal)
    (values : List Expr) (readable : ∀ value ∈ values, value.readable = true) :
    ∃ span witness, parse (counterexampleSource name formals values) =
      .ok ⟨span, [.counterexample witness]⟩ ∧ witness.name = name ∧
      Forall₂ EntryOf witness.entries (formals.zip values) := by
  have reads : ∀ fuel, (counterexampleLexemes name (formals.zip values)).length + 1 < fuel →
      Reads (declaration fuel) (counterexampleLexemes name (formals.zip values)) [(.eof, [])]
        fun found => ∃ witness, found = .counterexample witness ∧ witness.name = name ∧
          Forall₂ EntryOf witness.entries (formals.zip values) := by
    intro fuel enough
    simp only [counterexampleLexemes, length_cons, length_append, length_nil] at enough
    have entries : Reads (itemsUntil .rightBrace (counterexampleEntry fuel) fuel)
        ((formals.zip values).flatMap entryLexemes) [(.rightBrace, ['\x7d']), (.eof, [])]
        fun found => Forall₂ EntryOf found (formals.zip values) := by
      have counted := entries_le_lexemes (formals.zip values)
      apply itemsUntil_all rfl _ (fun entry _ => ⟨.identifier, rfl, by decide⟩) (by omega)
      intro entry member after more fits
      apply reads_counterexampleEntry (readable _ (of_mem_zip member).2) more
      simp only [length_append, length_cons, length_nil] at fits
      omega
    have whole : Reads (counterexampleDecl fuel) (counterexampleLexemes name (formals.zip values))
        [(.eof, [])] fun witness => witness.name = name ∧
          Forall₂ EntryOf witness.entries (formals.zip values) := by
      apply (reads_take (by simp)).cons
      intro first _
      apply (reads_takeIdentifier name (by simp)).cons
      intro found named
      apply (reads_take (by simp)).cons
      intro _ _
      apply entries.bind
      intro items known
      apply (reads_take (by simp)).last
      intro close _
      exact reads_node fun info => ⟨named, known⟩
    refine Reads.peek (show _ = some TokenKind.counterexampleKw from rfl) ?_
    exact whole.map fun witness known => ⟨witness, rfl, known⟩
  obtain ⟨span, found, parsed, witness, rfl, known⟩ := parse_of_declaration
    (counterexampleSource_lexes name formals values) (by decide) rfl (by decide) reads
  exact ⟨span, witness, parsed, known⟩

/-- The parsed entry gives back type object and value. -/
structure Returned (runtime : Runtime) (entry : CounterexampleEntry) (assigned : Formal × Term) :
    Prop where
  name : entry.name = assigned.1.name
  type : (resolveType entry.type).run runtime = .ok (assigned.1.type, runtime)
  value : (elaborate [] entry.value).run runtime =
    .ok (⟨assigned.1.type, assigned.2⟩, runtime)

/-- An entry for a spelled value gives back its type and the value. -/
theorem EntryOf.returned (formed : runtime.WellFormed) {found : CounterexampleEntry}
    {formal : Formal} {expression : Expr} (of : EntryOf found (formal, expression)) {term : Term}
    (listed : formal.type ∈ runtime.objects) (spells : Spells runtime expression term formal.type) :
    Returned runtime found (formal, term) where
  name := of.name
  type := resolveType_written formed.types found.type listed of.type
  value := by
    apply elaborate_spelled formed found.value listed
    rw [← spells_strip, of.value, spells_strip]
    exact spells

variable {formals : List Formal} {terms : List Term}

theorem entries_returned (formed : runtime.WellFormed) {found : List CounterexampleEntry}
    {expressions : List Expr} (listed : ∀ formal ∈ formals, formal.type ∈ runtime.objects)
    (spells : SpellsAll runtime expressions terms (formals.map Formal.type))
    (of : Forall₂ EntryOf found (formals.zip expressions)) :
    Forall₂ (Returned runtime) found (formals.zip terms) := by
  induction formals generalizing found expressions terms with
  | nil => simpa using of
  | cons formal formals ih =>
    cases expressions with
    | nil => cases spells.2
    | cons expression expressions =>
      obtain ⟨term, more, type, types, rfl, same, head, tail⟩ := spells
      cases same
      rw [zip_cons_cons, forall₂_cons_right_iff] at of
      obtain ⟨entry, entries, first, rest, rfl⟩ := of
      exact .cons (first.returned formed (listed formal mem_cons_self) head)
        (ih (fun other member => listed other (mem_cons_of_mem _ member)) tail rest)

theorem checkEntries_returned {entries : List CounterexampleEntry}
    (length : formals.length = terms.length)
    (returned : Forall₂ (Returned runtime) entries (formals.zip terms)) :
    (checkEntries entries formals terms).run runtime = .ok ((), runtime) := by
  induction formals generalizing entries terms with
  | nil =>
    rw [zip_nil_left, forall₂_nil_right_iff] at returned
    rw [returned]
    rfl
  | cons formal formals ih =>
    cases terms with
    | nil => cases length
    | cons term terms =>
      rw [zip_cons_cons, forall₂_cons_right_iff] at returned
      obtain ⟨entry, rest, first, others, rfl⟩ := returned
      have later := ih (Nat.succ.inj length) others
      rw [checkEntries, if_neg (by simp [first.name]), run_bind_of_ok first.type,
        run_bind_of_ok first.value, if_neg (by simp)]
      exact later

/-- Whatever values a check's parameters have, they are lifted, and the printed counterexample is
read as the same type objects and terms. So no check ends by finding another term in its own
counterexample. -/
theorem counterexample_returned (reached : Reached runtime) {declaration : CheckDecl}
    {translation : CheckTranslation}
    (ran : (translateCheck declaration).run runtime = .ok (translation, later)) {values : List Term}
    (ground : Forall₂ (GroundValue later) values (translation.formals.map Formal.type)) :
    ∃ lifted, (liftAll values (translation.formals.map Formal.type)).run later =
        .ok (lifted, later) ∧
      (∃ span witness,
        parse (counterexampleSource declaration.name translation.formals lifted) =
          .ok ⟨span, [.counterexample witness]⟩ ∧ witness.name = declaration.name ∧
        Forall₂ (Returned later) witness.entries (translation.formals.zip values)) ∧
      (checkCounterexample declaration.name translation.formals values
        (counterexampleSource declaration.name translation.formals lifted)).run later =
          .ok ((), later) := by
  have translated := translateCheck_ok reached.inOrder.formed ran
  have formed := translated.advances.wellFormed reached.inOrder.formed
  obtain ⟨start, of⟩ := translated.formals
  obtain ⟨lifted, lifts, spells⟩ := liftAll_ground
    (ground.imp fun _ _ value => liftTypedExpression_ground formed value)
  have readable : ∀ expression ∈ lifted, expression.readable = true := spells.readable
  obtain ⟨span, witness, parsed, named, entries⟩ :=
    parse_counterexampleSource declaration.name translation.formals lifted readable
  have returned := entries_returned formed of.listed spells entries
  have length : translation.formals.length = values.length := by
    simpa using ground.length_eq.symm
  refine ⟨lifted, lifts, ⟨span, witness, parsed, named, returned⟩, ?_⟩
  have count : witness.entries.length = translation.formals.length := by
    rw [returned.length_eq, length_zip, ← length, Nat.min_self]
  simp only [checkCounterexample, parsed, named, count, ne_eq, not_true_eq_false, or_self, if_false]
  exact checkEntries_returned length returned

namespace Peano

/-- The sample check translated, and the state after. -/
def translated : CheckTranslation × Runtime :=
  match (translateCheck checkDecl).run start with
  | .ok result => result
  | .error _ => (⟨[], [], [], none⟩, start)

/-- The value `Succ(Zero)`. -/
def one : Term := .app (.constructor succ [.datatype nat] (.datatype nat))
  [.app (.constructor zero [] (.datatype nat)) []]

theorem one_ground : GroundValue translated.2 one (.datatype 2 nat) := by
  have found : translated.2.datatypes.lookup nat = some datatype := rfl
  have none : GroundValue translated.2 (.app (.constructor zero [] (.datatype nat)) [])
      (.datatype 2 nat) :=
    @GroundValue.datatype _ 2 nat datatype ⟨zero, [], [], .datatype nat⟩ [] found
      (by simp [datatype]) .nil
  exact @GroundValue.datatype _ 2 nat datatype ⟨succ, [m], [.datatype 2 nat], .datatype nat⟩ _
    found (by simp [datatype]) (.cons none .nil)

end Peano

/-- One is printed in a counterexample and read back. -/
theorem counterexample_returned_one : ∃ lifted,
    (liftAll [Peano.one] (Peano.translated.1.formals.map Formal.type)).run Peano.translated.2 =
      .ok (lifted, Peano.translated.2) ∧
    (checkCounterexample Peano.checkDecl.name Peano.translated.1.formals [Peano.one]
      (counterexampleSource Peano.checkDecl.name Peano.translated.1.formals lifted)).run
        Peano.translated.2 = .ok ((), Peano.translated.2) := by
  have ran : (translateCheck Peano.checkDecl).run Peano.start =
      .ok (Peano.translated.1, Peano.translated.2) := rfl
  have types : Peano.translated.1.formals.map Formal.type = [.datatype 2 Peano.nat] := rfl
  have ground : Forall₂ (GroundValue Peano.translated.2) [Peano.one]
      (Peano.translated.1.formals.map Formal.type) := by
    rw [types]
    exact .cons Peano.one_ground .nil
  obtain ⟨lifted, lifts, -, checked⟩ := counterexample_returned Peano.start_reached ran ground
  exact ⟨lifted, lifts, checked⟩

end Fine.RuntimeDetail
