import Fine.Lift.Reading

/-!
# Generated terms are read back

Printing a closed term and reading it over the registry the printer leaves never fails. It gives the
term up to symbols: the empty string symbol comes back as the null symbol.
-/

namespace Fine.Lift

open Fine.Scan List
open Fine.Lookahead (Reads reads_pure)

variable {S D α : Type}

variable {label : Text} {bound : List (BoundBinding S)}

variable {limit : Nat}

section Names

variable {lead : Text}

theorem isWord_of_isAlias (isLead : isWord lead = true) (named : IsAlias lead label) :
    isWord label = true := by
  obtain ⟨body, rfl, names⟩ := named
  obtain ⟨first, rest, rfl, start, inside⟩ := isWord_cons isLead
  simp only [isWord, cons_append, start, all_append, Bool.true_and, Bool.and_eq_true, all_eq_true]
  exact ⟨inside, names⟩

def boundLead : Text := "_v_".toList

theorem boundAlias_named (number : Nat) : IsAlias boundLead (boundAlias number) :=
  ⟨decimal number, rfl, fun digit member => by
    simp [isNameCharacter, Char.isAlphanum, decimal_digits number digit member]⟩

theorem boundAlias_injective : Function.Injective boundAlias :=
  fun _ _ same => decimal_injective (append_cancel_left same)

theorem alias_not_keyword (isLead : lead.head? = some '_') (named : IsAlias lead label) :
    label ≠ "numeral".toList ∧
      ¬ (label = "forall".toList ∨ label = "exists".toList ∨ label = "lambda".toList) := by
  obtain ⟨body, rfl, -⟩ := named
  obtain ⟨rest, rfl⟩ : ∃ rest, lead = '_' :: rest := head?_eq_some_iff.mp isLead
  simp

/-- Variables have distinct aliases, numbered below a limit. -/
structure Scoped (bound : List (BoundBinding S)) (limit : Nat) : Prop where
  /-- No two variables in scope share an alias. -/
  distinct : (bound.map (·.label)).Nodup
  /-- Every alias is that of a number below the limit. -/
  numbered : ∀ binding ∈ bound, ∃ number < limit, binding.label = boundAlias number

theorem Scoped.mono {later : Nat} (inScope : Scoped bound limit) (le : limit ≤ later) :
    Scoped bound later :=
  ⟨inScope.distinct, fun binding member => by
    obtain ⟨number, below, label⟩ := inScope.numbered binding member
    exact ⟨number, by omega, label⟩⟩

theorem Scoped.push (inScope : Scoped bound limit) (sort : S) :
    Scoped (bound ++ [⟨boundAlias limit, sort⟩]) (limit + 1) := by
  constructor
  · rw [map_append, nodup_append]
    refine ⟨inScope.distinct, by simp, ?_⟩
    intro left inLeft right inRight same
    obtain ⟨binding, member, rfl⟩ := mem_map.mp inLeft
    obtain ⟨number, below, label⟩ := inScope.numbered binding member
    obtain rfl : right = boundAlias limit := by simpa using inRight
    have := boundAlias_injective (label.symm.trans same)
    omega
  · intro binding member
    rcases mem_append.mp member with member | member
    · obtain ⟨number, below, label⟩ := inScope.numbered binding member
      exact ⟨number, by omega, label⟩
    · obtain rfl := mem_singleton.mp member
      exact ⟨limit, by omega, rfl⟩

theorem findBound_of_index {index : Nat} {binding : BoundBinding S}
    (distinct : (bound.map (·.label)).Nodup) (found : bound.reverse[index]? = some binding) :
    findBound bound binding.label = some (index, binding.sort) := by
  induction bound with
  | nil => simp at found
  | cons head bound ih =>
    obtain ⟨fresh, distinct⟩ := nodup_cons.mp distinct
    rw [reverse_cons] at found
    by_cases inner : index < bound.length
    · rw [List.getElem?_append_left (by simpa using inner)] at found
      have member : binding ∈ bound := mem_reverse.mp (mem_of_getElem? found)
      have different : head.label ≠ binding.label :=
        fun same => fresh (mem_map.mpr ⟨binding, member, same.symm⟩)
      rw [findBound, if_neg different, ih distinct found]
    · rw [List.getElem?_append_right (by simpa using inner)] at found
      obtain ⟨zero, rfl⟩ : index - bound.length = 0 ∧ head = binding := by
        simpa [List.getElem?_singleton] using found
      rw [findBound, if_pos rfl]
      simp
      omega

theorem findBound_eq_none {name : Text} (absent : ∀ binding ∈ bound, binding.label ≠ name) :
    findBound bound name = none := by
  induction bound with
  | nil => rfl
  | cons head bound ih =>
    rw [findBound, if_neg (absent head (by simp)),
      ih fun binding member => absent binding (by simp [member])]

theorem Scoped.findBound_declaration (inScope : Scoped bound limit)
    (named : IsAlias declarationLead label) : findBound bound label = none := by
  refine findBound_eq_none fun binding member same => ?_
  obtain ⟨number, -, shape⟩ := inScope.numbered binding member
  obtain ⟨body, rfl, -⟩ := named
  simp [shape, boundAlias, declarationLead] at same

end Names

section Terms

variable [DecidableEq S] [DecidableEq D] {manager : Manager S D}

/-- A term may end at the end of the text, a comma or a closing mark. -/
def Delimited (rest : Text) : Prop :=
  ∀ mark ∈ rest.head?, mark = ',' ∨ mark = ')' ∨ mark = ']' ∨ mark = '\x7d'

variable {rest kind : Text} {term body : Term S D} {fuel weight : Nat}
  {patterns : List (List (Term S D))} {arguments : List (Term S D)} {noPatterns : List Text}

theorem Delimited.follows (delimited : Delimited rest) :
    Stops isNameCharacter rest ∧ ∃ token after, next rest = .ok (token, after) ∧
      token ≠ .punctuation '(' := by
  cases rest with
  | nil => exact ⟨stops_nil _, .finish, [], rfl, by simp⟩
  | cons mark rest =>
    have cases := delimited mark rfl
    have isMark : isPunctuation mark = true := by
      rcases cases with rfl | rfl | rfl | rfl <;> rfl
    refine ⟨?_, .punctuation mark, rest, next_mark isMark rest, ?_⟩
    · rcases cases with rfl | rfl | rfl | rfl <;> exact stops_cons.mpr rfl
    · rcases cases with rfl | rfl | rfl | rfl <;> simp

/-- A term is printed, and its text is read as the reread term by every later registry. -/
structure Prints (manager : Manager S D) (bound : List (BoundBinding S)) (term : Term S D)
    (state : PrinterState S D) (text : Text) (later : PrinterState S D) : Prop where
  /-- The printer returns the text and the later state. -/
  run : expressionText manager bound term state = .ok (text, later)
  kept : state.registry.Extends later.registry
  /-- Variable numbers are not used again. -/
  counted : state.nextBound ≤ later.nextBound
  starts : ∃ word rest, text = word ++ rest ∧ isWord word = true
  reads : ∀ registry, later.registry.Extends registry → ∀ fuel, text.length ≤ fuel →
    ∀ rest, Delimited rest →
      Reads next (expression registry fuel bound) (text ++ rest) rest term.reread

/-- The same for a list of terms. -/
structure PrintsAll (manager : Manager S D) (bound : List (BoundBinding S))
    (terms : List (Term S D)) (state : PrinterState S D) (texts : List Text)
    (later : PrinterState S D) : Prop where
  /-- The printer returns the texts and the later state. -/
  run : expressionTexts manager bound terms state = .ok (texts, later)
  kept : state.registry.Extends later.registry
  /-- Variable numbers are not used again. -/
  counted : state.nextBound ≤ later.nextBound
  nonempty : ∀ text ∈ texts, text ≠ []
  /-- The texts are read back as the items of a list. -/
  reads : ∀ registry, later.registry.Extends registry → ∀ fuel,
    (∀ text ∈ texts, text.length ≤ fuel) → ∀ close, close = ')' ∨ close = ']' →
      Forall₂ (ReadsItem close (expression registry fuel bound)) texts
        (terms.map Term.reread)

/-- A term can be printed in every scope and state. -/
def Printable (manager : Manager S D) (term : Term S D) : Prop :=
  ∀ bound state, term.Closed (bound.map (·.sort)) → Scoped bound state.nextBound →
    ∃ text later, Prints manager bound term state text later

variable {registry : Registry S D}

theorem Prints.item {state later : PrinterState S D} {text : Text}
    (prints : Prints manager bound term state text later) (kept : later.registry.Extends registry)
    (enough : text.length ≤ fuel) {close : Char} (isClose : close = ')' ∨ close = ']') :
    ReadsItem close (expression registry fuel bound) text term.reread where
  starts rest := by
    obtain ⟨word, tail, rfl, spelled⟩ := prints.starts
    obtain ⟨name, after, found⟩ := next_starts_word spelled (tail ++ rest)
    exact ⟨_, after, by rwa [append_assoc], by simp⟩
  reads mark rest isMark := by
    refine prints.reads registry kept fuel enough _ fun head found => ?_
    obtain rfl : mark = head := by simpa using found
    rcases isMark with rfl | rfl
    · exact .inl rfl
    · rcases isClose with rfl | rfl
      · exact .inr (.inl rfl)
      · exact .inr (.inr (.inl rfl))

theorem printsAll_of_printable {terms : List (Term S D)}
    (each : ∀ term ∈ terms, Printable manager term) (bound : List (BoundBinding S))
    (state : PrinterState S D) (closed : Term.AllClosed (bound.map (·.sort)) terms)
    (inScope : Scoped bound state.nextBound) :
    ∃ texts later, PrintsAll manager bound terms state texts later := by
  induction terms generalizing state with
  | nil => exact ⟨[], state, rfl, .refl _, Nat.le_refl _, by simp, fun _ _ _ _ _ _ => .nil⟩
  | cons term terms ih =>
    obtain ⟨text, middle, head⟩ := each term (by simp) bound state closed.1 inScope
    obtain ⟨texts, later, tail⟩ := ih (fun term member => each term (by simp [member])) middle
      closed.2 (inScope.mono head.counted)
    refine ⟨text :: texts, later, ?_, head.kept.trans tail.kept,
      Nat.le_trans head.counted tail.counted, ?_, ?_⟩
    · simp only [expressionTexts, bind, StateT.bind, head.run, Except.bind, tail.run]
      rfl
    · rintro part (_ | ⟨_, member⟩)
      · obtain ⟨word, rest, rfl, spelled⟩ := head.starts
        obtain ⟨first, others, rfl, -⟩ := isWord_cons spelled
        simp
      · exact tail.nonempty part member
    · intro registry kept fuel enough close isClose
      exact .cons (head.item (tail.kept.trans kept) (enough text (by simp)) isClose)
        (tail.reads registry kept fuel (fun part member => enough part (by simp [member])) close
          isClose)

theorem commaSeparated_bounds {texts : List Text} (nonempty : ∀ text ∈ texts, text ≠ []) :
    texts.length ≤ (commaSeparated texts).length ∧
      ∀ text ∈ texts, text.length ≤ (commaSeparated texts).length := by
  induction texts with
  | nil => simp
  | cons text texts ih =>
    obtain ⟨count, sizes⟩ := ih fun part member => nonempty part (by simp [member])
    have positive := length_pos_iff.mpr (nonempty text (by simp))
    cases texts with
    | nil =>
      simp only [commaSeparated, intercalate_singleton, mem_singleton, forall_eq]
      exact ⟨positive, Nat.le_refl _⟩
    | cons second texts =>
      have length : (commaSeparated (text :: second :: texts)).length =
          text.length + (commaSeparated (second :: texts)).length + 1 := by
        simp [commaSeparated, List.intercalate]
        omega
      rw [length]
      refine ⟨by simp only [length_cons] at *; omega, ?_⟩
      rintro part (_ | ⟨_, member⟩)
      · omega
      · have := sizes part member
        omega

/-- Printed patterns and how they are read back. -/
structure PrintsPatterns (manager : Manager S D) (bound : List (BoundBinding S))
    (patterns : List (List (Term S D))) (state : PrinterState S D) (texts : List Text)
    (later : PrinterState S D) : Prop where
  /-- The printer returns the texts and the later state. -/
  run : patternTexts manager bound patterns state = .ok (texts, later)
  kept : state.registry.Extends later.registry
  /-- Variable numbers are not used again. -/
  counted : state.nextBound ≤ later.nextBound
  nonempty : ∀ text ∈ texts, text ≠ []
  /-- The texts are read back as the items of a list of patterns. -/
  reads : ∀ registry, later.registry.Extends registry → ∀ fuel,
    (∀ text ∈ texts, text.length ≤ fuel) →
      Forall₂ (ReadsItem ']' (pattern (expression registry fuel bound) fuel)) texts
        (patterns.map (List.map Term.reread))

/-- Patterns of printable terms are printed in a row. -/
theorem printsPatterns_of_printable
    (each : ∀ pattern ∈ patterns, ∀ term ∈ pattern, Printable manager term)
    (bound : List (BoundBinding S)) (state : PrinterState S D)
    (closed : Term.PatternsClosed (bound.map (·.sort)) patterns)
    (inScope : Scoped bound state.nextBound) :
    ∃ texts later, PrintsPatterns manager bound patterns state texts later := by
  induction patterns generalizing state with
  | nil => exact ⟨[], state, rfl, .refl _, Nat.le_refl _, by simp, fun _ _ _ _ => .nil⟩
  | cons terms patterns ih =>
    obtain ⟨parts, middle, head⟩ := printsAll_of_printable (each terms (by simp)) bound state
      closed.1 inScope
    obtain ⟨texts, later, tail⟩ := ih (fun pattern member => each pattern (by simp [member])) middle
      closed.2 (inScope.mono head.counted)
    refine ⟨('[' :: commaSeparated parts ++ [']']) :: texts, later, ?_, head.kept.trans tail.kept,
      Nat.le_trans head.counted tail.counted, ?_, ?_⟩
    · simp only [patternTexts, bind, StateT.bind, head.run, Except.bind, tail.run]
      rfl
    · rintro part (_ | ⟨_, member⟩)
      · simp
      · exact tail.nonempty part member
    · intro registry kept fuel enough
      obtain ⟨count, sizes⟩ := commaSeparated_bounds head.nonempty
      have size := enough _ (mem_cons_self ..)
      simp only [cons_append, length_cons, length_append, length_nil] at size
      have items := head.reads registry (tail.kept.trans kept) fuel (fun part member => by
        have := sizes part member
        omega) ']' (.inr rfl)
      refine .cons ⟨fun rest => ⟨_, _, next_mark rfl _, by simp⟩, fun mark rest _ => ?_⟩
        (tail.reads registry kept fuel fun part member => enough part (by simp [member]))
      simp only [cons_append, append_assoc, nil_append]
      refine Reads.bind (reads_punctuation rfl _) ?_
      refine Reads.bind (reads_separated rfl (by decide) items (by omega) _) ?_
      exact Reads.bind (reads_punctuation rfl _) (reads_pure _ _)

/-- Printed binders and how they are read back. -/
structure PrintsBinders (manager : Manager S D) (bound : List (BoundBinding S))
    (binders : List (Binder S)) (state : PrinterState S D) (texts : List Text)
    (bindings : List (BoundBinding S)) (later : PrinterState S D) : Prop where
  /-- The printer returns the texts, the new variables and the later state. -/
  run : binderTexts manager binders state = .ok ((texts, bindings), later)
  kept : state.registry.Extends later.registry
  /-- Variable numbers are not used again. -/
  counted : state.nextBound ≤ later.nextBound
  nonempty : ∀ text ∈ texts, text ≠ []
  /-- The new variables have the sorts of the binders. -/
  sorts : bindings.map (·.sort) = binders.map (·.sort)
  /-- The new variables are named apart from each other and from those in scope. -/
  inScope : Scoped (bound ++ bindings) later.nextBound
  /-- The texts are read back as the new variables with the reread names. -/
  reads : ∀ registry, later.registry.Extends registry → ∃ found : List (Text × Binder S),
    Forall₂ (ReadsItem ')' (binder registry)) texts found ∧
      found.map (fun entry => (⟨entry.1, entry.2.sort⟩ : BoundBinding S)) = bindings ∧
      found.map (·.2) = binders.map fun binder => ⟨binder.name.reread, binder.sort⟩

omit [DecidableEq S] [DecidableEq D] in
theorem reads_binder {sortLabel : Text} {name : Symbol} {sort : S} (isLabel : isWord label = true)
    (isSort : isWord sortLabel = true) (bound : registry.sort sortLabel = .ok sort) :
    ReadsItem ')' (binder registry) (label ++ '@' :: symbolSyntax name ++ ':' :: sortLabel)
      (label, ⟨name.reread, sort⟩) where
  starts rest := by
    obtain ⟨text, after, found⟩ :=
      next_starts_word isLabel ('@' :: symbolSyntax name ++ ':' :: sortLabel ++ rest)
    exact ⟨_, after, by simpa using found, by simp⟩
  reads mark rest isMark := by
    have ends : Stops isNameCharacter (mark :: rest) := by
      rcases isMark with rfl | rfl <;> exact stops_cons.mpr rfl
    simp only [append_assoc, cons_append]
    refine Reads.bind (reads_identifier isLabel (stops_cons.mpr rfl)) ?_
    refine Reads.bind (reads_punctuation rfl _) ?_
    refine Reads.bind (reads_symbol name (stops_cons.mpr rfl)) ?_
    refine Reads.bind (reads_punctuation rfl _) ?_
    refine Reads.bind (reads_identifier isSort ends) ?_
    simpa [bound, ofExcept] using reads_pure _ _

omit [DecidableEq D] in
/-- Binders can be printed in every scope and state. -/
theorem printsBinders (manager : Manager S D) (bound : List (BoundBinding S)) (binders : List (Binder S))
    (state : PrinterState S D) (inScope : Scoped bound state.nextBound) :
    ∃ texts bindings later, PrintsBinders manager bound binders state texts bindings later := by
  induction binders generalizing bound state with
  | nil => exact ⟨[], [], state, rfl, .refl _, Nat.le_refl _, by simp, rfl, by simpa using inScope,
      fun _ _ => ⟨[], .nil, rfl, rfl⟩⟩
  | cons head binders ih =>
    let named := state.registry.sortAlias manager head.sort
    obtain ⟨texts, bindings, later, tail⟩ := ih (bound ++ [⟨boundAlias state.nextBound, head.sort⟩])
      ⟨named.2, state.nextBound + 1⟩ (inScope.push head.sort)
    have keptSort := Registry.extends_sortAlias manager state.registry head.sort
    refine ⟨_, _, later, by
        simp only [binderTexts, bind, StateT.bind, freshBound, sortAlias, Except.bind]
        rw [tail.run]
        rfl,
      keptSort.trans tail.kept, by have := tail.counted; simp only at this; omega, ?_, ?_,
      by simpa using tail.inScope, ?_⟩
    · rintro part (_ | ⟨_, member⟩)
      · simp
      · exact tail.nonempty part member
    · simpa using tail.sorts
    · intro registry kept
      obtain ⟨found, items, opened, names⟩ := tail.reads registry kept
      refine ⟨(boundAlias state.nextBound, ⟨head.name.reread, head.sort⟩) :: found,
        .cons (reads_binder ?_ ?_ ?_) items, by simp [opened], by simp [names]⟩
      · exact isWord_of_isAlias rfl (boundAlias_named _)
      · exact isWord_of_isAlias rfl (Registry.sortAlias_named manager _ _)
      · exact Registry.sort_sortAlias (tail.kept.trans kept)

theorem printable_numeral (text : CString) (sort : S) :
    Printable manager (.numeral text sort) := by
  intro bound state _ _
  refine ⟨_, _, rfl, Registry.extends_sortAlias manager state.registry sort, Nat.le_refl _,
    ⟨"numeral".toList, _, by simp only [append_assoc]; rfl, rfl⟩, ?_⟩
  intro registry kept fuel enough rest delimited
  obtain ⟨fuel, rfl⟩ : ∃ less, fuel = less + 1 := ⟨fuel - 1, by simp at enough; omega⟩
  have isSort := isWord_of_isAlias rfl (Registry.sortAlias_named manager state.registry sort)
  have shape : "numeral(".toList ++ stringQuote text.text ++
        ',' :: (state.registry.sortAlias manager sort).1 ++ [')'] ++ rest =
      "numeral".toList ++ '(' :: (stringQuote text.text ++
        ',' :: ((state.registry.sortAlias manager sort).1 ++ ')' :: rest)) := by simp
  rw [shape]
  refine Reads.bind (reads_identifierOr _ rfl (stops_cons.mpr rfl)) ?_
  rw [if_pos rfl]
  refine Reads.bind (reads_punctuation rfl _) ?_
  refine Reads.bind (reads_string _ _) ?_
  refine Reads.bind (reads_punctuation rfl _) ?_
  refine Reads.bind (reads_identifier isSort (stops_cons.mpr rfl)) ?_
  refine Reads.bind (reads_punctuation rfl _) ?_
  simpa [Registry.sort_sortAlias kept, ofExcept, Term.reread] using reads_pure _ _

theorem printable_var (index : Nat) (sort : S) : Printable manager (.var index sort : Term S D) := by
  intro bound state closed inScope
  obtain ⟨binding, found, rfl⟩ : ∃ binding, bound.reverse[index]? = some binding ∧
      binding.sort = sort := by
    rw [Term.Closed, ← map_reverse, List.getElem?_map, Option.map_eq_some_iff] at closed
    exact closed
  have member : binding ∈ bound := mem_reverse.mp (mem_of_getElem? found)
  obtain ⟨number, -, label⟩ := inScope.numbered binding member
  have named : IsAlias boundLead binding.label := label ▸ boundAlias_named number
  have spelled := isWord_of_isAlias rfl named
  refine ⟨binding.label, state, by simp only [expressionText, boundText, found]; rfl, .refl _,
    Nat.le_refl _, ⟨binding.label, [], by simp, spelled⟩, ?_⟩
  intro registry kept fuel enough rest delimited
  obtain ⟨fuel, rfl⟩ : ∃ less, fuel = less + 1 :=
    ⟨fuel - 1, by have := length_pos_of_isWord spelled; omega⟩
  refine Reads.bind (reads_identifierOr _ spelled delimited.follows.1) ?_
  rw [if_neg (alias_not_keyword rfl named).1, if_neg (alias_not_keyword rfl named).2,
    findBound_of_index inScope.distinct found]
  exact reads_pure _ _

omit [DecidableEq S] [DecidableEq D] in
theorem reads_application {input : Text} {declaration : D} (inScope : Scoped bound limit)
    (named : IsAlias declarationLead label) (lookup : registry.declaration label = .ok declaration)
    (stops : Stops isNameCharacter input)
    (read : Reads next (applicationArguments (expression registry fuel bound) fuel) input rest
      arguments) :
    Reads next (expression registry (fuel + 1) bound) (label ++ input) rest
      (.app declaration arguments) := by
  refine Reads.bind (reads_identifierOr _ (isWord_of_isAlias rfl named) stops) ?_
  rw [if_neg (alias_not_keyword rfl named).1, if_neg (alias_not_keyword rfl named).2,
    inScope.findBound_declaration named]
  have found : Reads next (ofExcept (registry.declaration label)) input input declaration := by
    rw [lookup]
    exact reads_pure _ _
  exact Reads.bind found (Reads.bind read (reads_pure _ _))

/-- An application can be printed if its arguments can. -/
theorem printable_app (declaration : D)
    (each : ∀ argument ∈ arguments, Printable manager argument) :
    Printable manager (.app declaration arguments) := by
  intro bound state closed inScope
  let named := state.registry.declarationAlias manager declaration
  have isAlias : IsAlias declarationLead named.1 :=
    Registry.declarationAlias_named manager state.registry declaration
  have spelled := isWord_of_isAlias rfl isAlias
  obtain ⟨texts, later, all⟩ := printsAll_of_printable each bound
    { state with registry := named.2 } closed inScope
  have keptName := Registry.extends_declarationAlias manager state.registry declaration
  refine ⟨if arguments.isEmpty then named.1 else named.1 ++ '(' :: commaSeparated texts ++ [')'],
    later, ?_, keptName.trans all.kept, all.counted, ?_, ?_⟩
  · simp only [expressionText, bind, StateT.bind, declarationAlias, Except.bind]
    rw [all.run]
    rfl
  · split
    · exact ⟨named.1, [], by simp, spelled⟩
    · exact ⟨named.1, _, by rw [append_assoc], spelled⟩
  intro registry kept fuel enough rest delimited
  have lookup : registry.declaration named.1 = .ok declaration :=
    Registry.declaration_declarationAlias (all.kept.trans kept)
  have positive := length_pos_of_isWord spelled
  rw [Term.reread, Term.rereadAll_eq_map]
  by_cases empty : arguments = []
  · subst empty
    simp only [isEmpty_nil, if_true] at enough ⊢
    obtain ⟨fuel, rfl⟩ : ∃ less, fuel = less + 1 := ⟨fuel - 1, by omega⟩
    obtain ⟨stops, token, after, found, different⟩ := delimited.follows
    refine reads_application inScope isAlias lookup stops (Reads.bind (reads_isAt found) ?_)
    rw [decide_eq_false different]
    exact reads_pure _ _
  · simp only [List.isEmpty_iff, empty, if_false, length_append, length_cons,
      length_nil] at enough ⊢
    obtain ⟨fuel, rfl⟩ : ∃ less, fuel = less + 1 := ⟨fuel - 1, by omega⟩
    obtain ⟨count, sizes⟩ := commaSeparated_bounds all.nonempty
    have items := all.reads registry kept fuel (fun part member => by
      have := sizes part member
      omega) ')' (.inl rfl)
    simp only [append_assoc, cons_append, nil_append]
    refine reads_application inScope isAlias lookup (stops_cons.mpr rfl)
      (Reads.bind (reads_isAt (next_mark rfl _)) ?_)
    rw [decide_eq_true rfl]
    refine Reads.bind (reads_punctuation rfl _) ?_
    refine Reads.bind (reads_separated rfl (by decide) items (by omega) _) ?_
    exact Reads.bind (reads_punctuation rfl _) (reads_pure _ _)

omit [DecidableEq S] [DecidableEq D] in
theorem reads_quantifierHeader (fits : weight < 2 ^ 32) (qid skid : Symbol) (rest : Text) :
    Reads next quantifierHeader ("[weight=".toList ++ decimal weight ++ ",qid=".toList ++
      symbolSyntax qid ++ ",skid=".toList ++ symbolSyntax skid ++ ']' :: rest) rest
      (weight, qid.reread, skid.reread) := by
  have shape : "[weight=".toList ++ decimal weight ++ ",qid=".toList ++ symbolSyntax qid ++
      ",skid=".toList ++ symbolSyntax skid ++ ']' :: rest =
      '[' :: ("weight".toList ++ '=' :: (decimal weight ++ ',' :: ("qid".toList ++ '=' ::
        (symbolSyntax qid ++ ',' :: ("skid".toList ++ '=' ::
          (symbolSyntax skid ++ ']' :: rest)))))) := by simp
  rw [shape]
  refine Reads.bind (reads_punctuation rfl _) ?_
  refine Reads.bind (reads_keyword rfl (stops_cons.mpr rfl)) ?_
  refine Reads.bind (reads_punctuation rfl _) ?_
  refine Reads.bind (reads_number fits (stops_cons.mpr rfl)) ?_
  refine Reads.bind (reads_punctuation rfl _) ?_
  refine Reads.bind (reads_keyword rfl (stops_cons.mpr rfl)) ?_
  refine Reads.bind (reads_punctuation rfl _) ?_
  refine Reads.bind (reads_symbol qid (stops_cons.mpr rfl)) ?_
  refine Reads.bind (reads_punctuation rfl _) ?_
  refine Reads.bind (reads_keyword rfl (stops_cons.mpr rfl)) ?_
  refine Reads.bind (reads_punctuation rfl _) ?_
  refine Reads.bind (reads_symbol skid (stops_cons.mpr rfl)) ?_
  exact Reads.bind (reads_punctuation rfl _) (reads_pure _ _)

omit [DecidableEq S] [DecidableEq D] in
theorem reads_quantifierPatterns {item : Parse α} {patterns : List Text}
    {patternValues : List (List α)} {noPatternValues : List α}
    (each : Forall₂ (ReadsItem ']' (pattern item fuel)) patterns patternValues)
    (eachNo : Forall₂ (ReadsItem ']' item) noPatterns noPatternValues)
    (enough : patterns.length < fuel) (enoughNo : noPatterns.length < fuel) (rest : Text) :
    Reads next (quantifierPatterns item fuel) ("[patterns=[".toList ++ commaSeparated patterns ++
      "],nopatterns=[".toList ++ commaSeparated noPatterns ++ "]]".toList ++ rest) rest
      (patternValues, noPatternValues) := by
  have shape : "[patterns=[".toList ++ commaSeparated patterns ++ "],nopatterns=[".toList ++
      commaSeparated noPatterns ++ "]]".toList ++ rest =
      '[' :: ("patterns".toList ++ '=' :: '[' :: (commaSeparated patterns ++ ']' :: ',' ::
        ("nopatterns".toList ++ '=' :: '[' ::
          (commaSeparated noPatterns ++ ']' :: ']' :: rest)))) := by simp
  rw [shape]
  refine Reads.bind (reads_punctuation rfl _) ?_
  refine Reads.bind (reads_keyword rfl (stops_cons.mpr rfl)) ?_
  refine Reads.bind (reads_punctuation rfl _) ?_
  refine Reads.bind (reads_punctuation rfl _) ?_
  refine Reads.bind (reads_separated rfl (by decide) each enough _) ?_
  refine Reads.bind (reads_punctuation rfl _) ?_
  refine Reads.bind (reads_punctuation rfl _) ?_
  refine Reads.bind (reads_keyword rfl (stops_cons.mpr rfl)) ?_
  refine Reads.bind (reads_punctuation rfl _) ?_
  refine Reads.bind (reads_punctuation rfl _) ?_
  refine Reads.bind (reads_separated rfl (by decide) eachNo enoughNo _) ?_
  refine Reads.bind (reads_punctuation rfl _) ?_
  exact Reads.bind (reads_punctuation rfl _) (reads_pure _ _)

omit [DecidableEq S] [DecidableEq D] in
/-- A printed quantifier is read as built from its parts. -/
theorem reads_quantifierForm
    (isKind : kind = "forall".toList ∨ kind = "exists".toList ∨ kind = "lambda".toList)
    (fits : weight < 2 ^ 32) {qid skid : Symbol} {binders patterns : List Text} {body : Text}
    {found : List (Text × Binder S)} {bodyValue result : Term S D}
    {patternValues : List (List (Term S D))} {noPatternValues : List (Term S D)}
    (eachBinder : Forall₂ (ReadsItem ')' (binder registry)) binders found)
    (scope : List (BoundBinding S))
    (opened : scope = bound ++ found.map fun entry => ⟨entry.1, entry.2.sort⟩)
    (readBody : ∀ rest, Reads next (expression registry fuel scope) (body ++ '\x7d' :: rest)
      ('\x7d' :: rest) bodyValue)
    (each : Forall₂ (ReadsItem ']' (pattern (expression registry fuel scope) fuel)) patterns
      patternValues)
    (eachNo : Forall₂ (ReadsItem ']' (expression registry fuel scope)) noPatterns
      noPatternValues)
    (enoughBinders : binders.length < fuel) (enough : patterns.length < fuel)
    (enoughNo : noPatterns.length < fuel)
    (built : buildQuantifier kind weight qid.reread skid.reread (found.map (·.2)) bodyValue
      patternValues noPatternValues = .ok result) (rest : Text) :
    Reads next (expression registry (fuel + 1) bound)
      (quantifierForm kind weight qid skid binders body patterns noPatterns ++ rest) rest result := by
  subst opened
  have spelled : isWord kind = true := by rcases isKind with rfl | rfl | rfl <;> rfl
  have notNumeral : kind ≠ "numeral".toList := by rcases isKind with rfl | rfl | rfl <;> simp
  have shape : quantifierForm kind weight qid skid binders body patterns noPatterns ++ rest =
      kind ++ ("[weight=".toList ++ decimal weight ++ ",qid=".toList ++ symbolSyntax qid ++
        ",skid=".toList ++ symbolSyntax skid ++ ']' :: ('(' :: (commaSeparated binders ++ ')' ::
        '\x7b' :: (body ++ '\x7d' :: ("[patterns=[".toList ++ commaSeparated patterns ++
        "],nopatterns=[".toList ++ commaSeparated noPatterns ++ "]]".toList ++ rest))))) := by
    simp [quantifierForm]
  rw [shape]
  refine Reads.bind (reads_identifierOr _ spelled (stops_cons.mpr rfl)) ?_
  rw [if_neg notNumeral, if_pos isKind]
  refine Reads.bind (reads_quantifierHeader fits qid skid _) ?_
  refine Reads.bind (reads_punctuation rfl _) ?_
  refine Reads.bind (reads_separated rfl (by decide) eachBinder enoughBinders _) ?_
  refine Reads.bind (reads_punctuation rfl _) ?_
  refine Reads.bind (reads_punctuation rfl _) ?_
  refine Reads.bind (readBody _) ?_
  refine Reads.bind (reads_punctuation rfl _) ?_
  refine Reads.bind (reads_quantifierPatterns each eachNo enough enoughNo rest) ?_
  dsimp only
  rw [built]
  exact reads_pure _ _

theorem quantifierForm_length (kind : Text) (weight : Nat) (qid skid : Symbol)
    (binders : List Text) (body : Text) (patterns noPatterns : List Text) :
    (commaSeparated binders).length + body.length + (commaSeparated patterns).length +
        (commaSeparated noPatterns).length + 2 ≤
      (quantifierForm kind weight qid skid binders body patterns noPatterns).length := by
  simp [quantifierForm]
  omega

theorem quantifierForm_starts (spelled : isWord kind = true) (weight : Nat) (qid skid : Symbol)
    (binders : List Text) (body : Text) (patterns noPatterns : List Text) :
    ∃ word rest, quantifierForm kind weight qid skid binders body patterns noPatterns = word ++ rest ∧
      isWord word = true :=
  ⟨kind, _, by simp only [quantifierForm, append_assoc]; rfl, spelled⟩

theorem delimited_brace (rest : Text) : Delimited ('\x7d' :: rest) := by
  simp [Delimited]

/-- A quantifier can be printed if its parts can. -/
theorem printable_quantifier (universal : Bool) (weight : Fin (2 ^ 32)) (qid skid : Symbol)
    (binders : List (Binder S)) {noPatterns : List (Term S D)} (eachBody : Printable manager body)
    (each : ∀ pattern ∈ patterns, ∀ term ∈ pattern, Printable manager term)
    (eachNo : ∀ term ∈ noPatterns, Printable manager term) :
    Printable manager (.quantifier universal weight qid skid binders body patterns noPatterns) := by
  intro bound state closed inScope
  obtain ⟨someBinder, bodyClosed, patternsClosed, noPatternsClosed⟩ := closed
  obtain ⟨binderParts, bindings, opened, head⟩ := printsBinders manager bound binders state inScope
  have sorts : (bound ++ bindings).map (·.sort) =
      bound.map (·.sort) ++ binders.map (·.sort) := by rw [map_append, head.sorts]
  rw [← sorts] at bodyClosed patternsClosed noPatternsClosed
  obtain ⟨bodyPart, afterBody, printedBody⟩ := eachBody _ opened bodyClosed head.inScope
  have scopeBody := head.inScope.mono printedBody.counted
  obtain ⟨patternParts, afterPatterns, printed⟩ :=
    printsPatterns_of_printable each _ afterBody patternsClosed scopeBody
  obtain ⟨noPatternParts, later, printedNo⟩ :=
    printsAll_of_printable eachNo _ afterPatterns noPatternsClosed (scopeBody.mono printed.counted)
  let kind : Text := if universal then "forall".toList else "exists".toList
  have isKind : kind = "forall".toList ∨ kind = "exists".toList ∨ kind = "lambda".toList := by
    cases universal <;> simp [kind]
  refine ⟨quantifierForm kind weight qid skid binderParts bodyPart patternParts noPatternParts,
    later, ?_, head.kept.trans (printedBody.kept.trans (printed.kept.trans printedNo.kept)), ?_,
    quantifierForm_starts ?_ .., ?_⟩
  · simp only [expressionText, bind, StateT.bind, head.run, Except.bind, printedBody.run,
      printed.run, printedNo.run]
    rfl
  · exact Nat.le_trans head.counted (Nat.le_trans printedBody.counted
      (Nat.le_trans printed.counted printedNo.counted))
  · rcases isKind with same | same | same <;> rw [same] <;> rfl
  intro registry kept fuel enough rest delimited
  have size := quantifierForm_length kind weight qid skid binderParts bodyPart patternParts
    noPatternParts
  obtain ⟨fuel, rfl⟩ : ∃ less, fuel = less + 1 := ⟨fuel - 1, by omega⟩
  obtain ⟨binderCount, -⟩ := commaSeparated_bounds head.nonempty
  obtain ⟨count, sizes⟩ := commaSeparated_bounds printed.nonempty
  obtain ⟨countNo, sizesNo⟩ := commaSeparated_bounds printedNo.nonempty
  have keptPatterns := printedNo.kept.trans kept
  have keptBody := printed.kept.trans keptPatterns
  obtain ⟨found, eachBinder, scope, names⟩ := head.reads registry (printedBody.kept.trans keptBody)
  refine reads_quantifierForm isKind weight.isLt eachBinder (bound ++ bindings) (by rw [scope])
    (fun rest => printedBody.reads registry keptBody fuel (by omega) _ (delimited_brace rest))
    (printed.reads registry keptPatterns fuel fun part member => by
      have := sizes part member
      omega)
    (printedNo.reads registry kept fuel (fun part member => by
      have := sizesNo part member
      omega) ']' (.inr rfl))
    (by omega) (by omega) (by omega) ?_ rest
  have notLambda : kind ≠ "lambda".toList := by cases universal <;> simp [kind]
  have forallKind : decide (kind = "forall".toList) = universal := by
    cases universal <;> simp [kind]
  rw [buildQuantifier, if_neg notLambda, mkQuantifierEx, names, if_neg (by simpa using someBinder),
    forallKind, Term.reread, Term.rereadAll_eq_map, Term.rereadPatterns_eq_map]
  simp

theorem printable_lambda (binders : List (Binder S)) (eachBody : Printable manager body) :
    Printable manager (.lambda binders body) := by
  intro bound state closed inScope
  obtain ⟨someBinder, bodyClosed⟩ := closed
  obtain ⟨binderParts, bindings, opened, head⟩ := printsBinders manager bound binders state inScope
  have sorts : (bound ++ bindings).map (·.sort) =
      bound.map (·.sort) ++ binders.map (·.sort) := by rw [map_append, head.sorts]
  rw [← sorts] at bodyClosed
  obtain ⟨bodyPart, later, printedBody⟩ := eachBody _ opened bodyClosed head.inScope
  refine ⟨quantifierForm "lambda".toList 0 .null .null binderParts bodyPart [] [], later, ?_,
    head.kept.trans printedBody.kept, Nat.le_trans head.counted printedBody.counted,
    quantifierForm_starts rfl .., ?_⟩
  · simp only [expressionText, bind, StateT.bind, head.run, Except.bind, printedBody.run]
    rfl
  intro registry kept fuel enough rest delimited
  have size := quantifierForm_length "lambda".toList 0 .null .null binderParts bodyPart [] []
  obtain ⟨fuel, rfl⟩ : ∃ less, fuel = less + 1 := ⟨fuel - 1, by omega⟩
  obtain ⟨binderCount, -⟩ := commaSeparated_bounds head.nonempty
  obtain ⟨found, eachBinder, scope, names⟩ := head.reads registry (printedBody.kept.trans kept)
  refine reads_quantifierForm (.inr (.inr rfl)) (by decide) eachBinder (bound ++ bindings)
    (by rw [scope])
    (fun rest => printedBody.reads registry kept fuel (by omega) _ (delimited_brace rest))
    .nil .nil (by omega) (by simp; omega) (by simp; omega) ?_ rest
  rw [buildQuantifier, if_pos rfl, if_neg (by simp), mkLambda, names,
    if_neg (by simpa using someBinder), Term.reread]

theorem printable (manager : Manager S D) (term : Term S D) : Printable manager term := by
  induction term with
  | numeral text sort => exact printable_numeral text sort
  | app declaration arguments each => exact printable_app declaration each
  | var index sort => exact printable_var index sort
  | quantifier universal weight qid skid binders body patterns noPatterns eachBody each eachNo =>
    exact printable_quantifier universal weight qid skid binders eachBody each eachNo
  | lambda binders body eachBody => exact printable_lambda binders eachBody

theorem parse_print (manager : Manager S D) (closed : term.Closed []) :
    ∃ text registry, print manager term = .ok (text, registry) ∧
      parse registry text = .ok term.reread := by
  obtain ⟨text, later, prints⟩ :=
    printable manager term [] ⟨Registry.fresh, 0⟩ closed ⟨by simp, by simp⟩
  refine ⟨text, later.registry, by simp only [print, StateT.run, prints.run]; rfl, ?_⟩
  have read := prints.reads later.registry (.refl _) (text.length + 1) (by omega) []
    (by simp [Delimited])
  rw [Reads, Lookahead.runAt, append_nil] at read
  have finish : Lookahead.start next [] = .ok ⟨.finish, []⟩ := rfl
  simp only [parse]
  cases first : Lookahead.start next text with
  | error message => simp [first, finish, bind, Except.bind, Except.map] at read
  | ok cursor =>
    simp only [first, finish, bind, Except.bind, Except.map] at read
    simp only [bind, Except.bind, read]
    rfl

theorem reify_eq_reread (closed : term.Closed []) : reify manager term = .ok term.reread := by
  obtain ⟨text, registry, printed, parsed⟩ := parse_print manager closed
  simp only [reify, printed, bind, Except.bind, parsed]

/-- A closed term is read back as itself just if no symbol is the empty string. -/
theorem reify_eq_self_iff (manager : Manager S D) (term : Term S D) (closed : term.Closed []) :
    reify manager term = .ok term ↔
      ∀ symbol ∈ term.symbols, ∀ string, symbol = .string string → string.text ≠ [] := by
  rw [reify_eq_reread closed, Except.ok.injEq, Term.reread_eq_self]
  exact forall₂_congr fun symbol _ => Symbol.reread_eq_self symbol

end Terms

section Example

def unitManager : Manager Unit Unit where
  sortText _ := "Bool".toList
  name _ := .string ⟨"p".toList, by decide⟩
  kind _ := .other 45101
  parameters _ := []
  domain _ := [()]
  range _ := ()

/-- A quantified application with a binder of a given name. -/
def namedBinderTerm (name : Symbol) : Term Unit Unit :=
  .quantifier true ⟨1, by decide⟩ .null .null [⟨name, ()⟩] (.app () [.var 0 ()]) [] []

/-- An ordinary binder name comes back. -/
theorem reify_named_binder :
    (namedBinderTerm (.string ⟨['x'], by decide⟩)).Closed [] ∧
      reify unitManager (namedBinderTerm (.string ⟨['x'], by decide⟩)) =
        .ok (namedBinderTerm (.string ⟨['x'], by decide⟩)) := by
  have closed : (namedBinderTerm (.string ⟨['x'], by decide⟩)).Closed [] := by
    simp [namedBinderTerm, Term.Closed, Term.AllClosed, Term.PatternsClosed]
  refine ⟨closed, (reify_eq_self_iff _ _ closed).mpr ?_⟩
  simp [namedBinderTerm, Term.symbols, Term.symbolsAll, Term.symbolsPatterns]

/-- A binder named by the empty string loses its name. -/
theorem reify_empty_binder_name :
    (namedBinderTerm (.string ⟨[], by decide⟩)).Closed [] ∧
      reify unitManager (namedBinderTerm (.string ⟨[], by decide⟩)) =
        .ok (namedBinderTerm .null) ∧
      namedBinderTerm (.string ⟨[], by decide⟩) ≠ namedBinderTerm .null := by
  have closed : (namedBinderTerm (.string ⟨[], by decide⟩)).Closed [] := by
    simp [namedBinderTerm, Term.Closed, Term.AllClosed, Term.PatternsClosed]
  refine ⟨closed, ?_, by simp [namedBinderTerm]⟩
  rw [reify_eq_reread closed]
  rfl

end Example

end Fine.Lift
