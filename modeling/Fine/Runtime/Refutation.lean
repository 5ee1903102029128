import Fine.Library.Covering
import Fine.Library.Scan
import Fine.Runtime.Candidates
import Fine.Runtime.Functions
import Mathlib

/-!
# Refutation synthesis

The solver is asked for inputs that no selected term covers; the next candidate that covers them is
selected, and others are dropped. When there are none, the terms of the core become nested
conditionals. The solver is a parameter that answers each query by its number.
-/

namespace Fine.RuntimeDetail

open Fine.Syntax Fine.Semantics Fine.Covering List

/-- Values for the constants, or a core of the assumptions. -/
inductive Verdict where
  | sat (model : Const → Term)
  | unsat (core : List Term)
  | unknown (reason : String)

/-- What is answered to a query, by its number, terms and assumptions. -/
abbrev CoreSolver := Nat → List Term → List Term → Verdict

/-- A term that was selected. -/
structure SynthesisSelection where
  grammarSize : Nat
  term : Term
  groundInstance : Term
  label : Const

/-- What a synthesis is run on. -/
structure RefutationSynthesizer where
  declarationName : String
  parameters : List Const
  resultPlaceholder : Const
  specification : Term
  grammarInputs : List Const

namespace RefutationSynthesizer

/-- Without grammar inputs, all parameters are taken. -/
def make (declarationName : String) (parameters : List Const) (resultPlaceholder : Const)
    (specification : Term) (grammarInputs : List Const) : RefutationSynthesizer where
  declarationName := declarationName
  parameters := parameters
  resultPlaceholder := resultPlaceholder
  specification := specification
  grammarInputs := if grammarInputs.isEmpty then parameters else grammarInputs

/-- Constant for a counterexample at a parameter. -/
def counterexampleParameter (synthesizer : RefutationSynthesizer) (index : Nat)
    (parameter : Const) : Const :=
  ⟨"Fine.synth." ++ synthesizer.declarationName ++ ".k" ++ toString index, parameter.sort⟩

/-- Counterexample constants for parameters. -/
def toCounterexample (synthesizer : RefutationSynthesizer) : List (Const × Term) :=
  synthesizer.parameters.zipIdx.map fun entry =>
    (entry.1, .constant (synthesizer.counterexampleParameter entry.2 entry.1))

/-- A candidate's specification at these constants. -/
def instance_ (synthesizer : RefutationSynthesizer) (term : Term) : Term :=
  synthesizer.specification.substitute (synthesizer.toCounterexample ++
    [(synthesizer.resultPlaceholder, term.substitute synthesizer.toCounterexample)])

def specified (synthesizer : RefutationSynthesizer) (term : Term) : Term :=
  synthesizer.specification.substitute [(synthesizer.resultPlaceholder, term)]

/-- Label of a selection. -/
def label (synthesizer : RefutationSynthesizer) (index : Nat) : Const :=
  ⟨"Fine.synth." ++ synthesizer.declarationName ++ ".instance" ++ toString index, .bool⟩

end RefutationSynthesizer

/-- What a label activates. -/
def SynthesisSelection.assertion (selection : SynthesisSelection) : Term :=
  (Term.constant selection.label).imp selection.groundInstance.neg

/-- A candidate is being tested, or the solver is asked whether all is covered. -/
structure SynthesisSearch where
  candidates : CandidateEnumerator
  selections : List SynthesisSelection
  querySequence : Nat
  selected : Option Candidate

namespace SynthesisSearch

/-- Before the first query. -/
def initial (inputs : List Const) : SynthesisSearch := ⟨.initial inputs, [], 0, none⟩

def active (search : SynthesisSearch) : List Term :=
  search.selections.map fun selection => .constant selection.label

def gamma (search : SynthesisSearch) : List Term :=
  search.selections.map SynthesisSelection.assertion

/-- Take the next candidate. -/
def advance (search : SynthesisSearch) : SynthesisSearch where
  candidates := search.candidates.next.2
  selections := search.selections
  querySequence := search.querySequence + 1
  selected := some search.candidates.next.1

/-- Select a candidate. -/
def select (search : SynthesisSearch) (synthesizer : RefutationSynthesizer)
    (found : Candidate) : SynthesisSearch where
  candidates := search.candidates
  selections := search.selections ++ [⟨found.size, found.term, synthesizer.instance_ found.term,
    synthesizer.label search.selections.length⟩]
  querySequence := search.querySequence + 1
  selected := none

end SynthesisSearch

/-- How a search goes on. -/
inductive SynthesisProgress where
  /-- Everything is covered, with a core of the assumptions. -/
  | refuted (search : SynthesisSearch) (core : List Term)
  | failed (message : String)
  | searching (search : SynthesisSearch)

namespace RefutationSynthesizer

variable (solver : CoreSolver) (synthesizer : RefutationSynthesizer)

/-- One query of the loops, and what follows. -/
def step (search : SynthesisSearch) : SynthesisProgress :=
  match search.selected with
  | none =>
    match solver search.querySequence search.gamma search.active with
    | .unsat core =>
      .refuted { search with querySequence := search.querySequence + 1 } core
    | .unknown reason => .failed ("synthesis context was unknown: " ++ reason)
    | .sat _ => .searching search.advance
  | some found =>
    match solver search.querySequence (search.gamma ++ [synthesizer.instance_ found.term])
        search.active with
    | .unknown reason => .failed ("candidate selection was unknown: " ++ reason)
    | .sat _ => .searching (search.select synthesizer found)
    | .unsat _ => .searching search.advance

def searchFrom : Nat → SynthesisSearch → SynthesisProgress
  | 0, search => .searching search
  | queries + 1, search =>
    match synthesizer.step solver search with
    | .searching later => searchFrom queries later
    | ended => ended

def search (queries : Nat) : SynthesisProgress :=
  synthesizer.searchFrom solver queries (.initial synthesizer.grammarInputs)

def coreSelections (selections : List SynthesisSelection) (core : List Term) :
    List SynthesisSelection :=
  selections.filter fun selection => Term.constant selection.label ∈ core

/-- Nested conditionals, the first term for the default, later ones outside. -/
def assemble (first : SynthesisSelection) (later : List SynthesisSelection) : Term :=
  later.foldl (fun assembled selection =>
    .app .ite [synthesizer.specified selection.term, selection.term, assembled]) first.term

end RefutationSynthesizer

/-- What a run returns. -/
structure SynthesisResult where
  assembled : Term
  witness : Term
  selections : List SynthesisSelection
  core : List SynthesisSelection

namespace RefutationSynthesizer

variable (solver : CoreSolver) (simplify : Term → Term) (synthesizer : RefutationSynthesizer)

/-- Assemble a core, simplify the result and verify it. -/
def finish (search : SynthesisSearch) (core : List Term) : Except String SynthesisResult :=
  match coreSelections search.selections core with
  | [] => .error "synthesis refutation produced an empty core"
  | first :: later =>
    let assembled := synthesizer.assemble first later
    let witness := simplify assembled
    match solver search.querySequence [(synthesizer.specified witness).neg] [] with
    | .unknown reason => .error ("synthesized candidate verification was unknown: " ++ reason)
    | .sat _ => .error "synthesized candidate failed independent verification"
    | .unsat _ => .ok ⟨assembled, witness, search.selections, first :: later⟩

/-- A run, if its loops end after so many queries. -/
def run (queries : Nat) : Option (Except String SynthesisResult) :=
  match synthesizer.search solver queries with
  | .refuted search core => some (synthesizer.finish solver simplify search core)
  | .failed message => some (.error message)
  | .searching _ => none

end RefutationSynthesizer

/-! ## Meaning of the queries -/

variable {symbol : Const}

theorem Term.mem_constants_substitute (replacements : List (Const × Term)) (term : Term)
    (plain : term.quantifierFree = true)
    (member : symbol ∈ (term.substitute replacements).constants) :
    ∃ other ∈ term.constants,
      symbol ∈ ((replacements.lookup other).getD (.constant other)).constants := by
  induction term with
  | constant other => exact ⟨other, mem_singleton_self _, member⟩
  | numeral value => cases member
  | app decl arguments ih =>
    rw [Term.quantifierFree, Term.quantifierFreeAll_iff] at plain
    rw [Term.substitute, Term.substituteAll_eq, Term.constants, Term.constantsAll_eq,
      flatMap_map] at member
    obtain ⟨argument, inside, member⟩ := mem_flatMap.mp member
    obtain ⟨other, known, found⟩ := ih argument inside (plain argument inside) member
    refine ⟨other, ?_, found⟩
    rw [Term.constants, Term.constantsAll_eq]
    exact mem_flatMap.mpr ⟨argument, inside, known⟩
  | quantified => cases plain

/-- Some assignment by elements makes all terms true. -/
def Satisfiable (interp : Interp) (terms : List Term) : Prop :=
  ∃ assignment : Assignment, assignment.Sorted interp.shapes (terms.flatMap Term.constants) ∧
    ∀ term ∈ terms, Models interp term assignment

namespace RefutationSynthesizer

/-- About parameters and result, different constants. -/
structure Valid (synthesizer : RefutationSynthesizer) : Prop where
  /-- The specification has no quantifier. -/
  plain : synthesizer.specification.quantifierFree = true
  /-- It is about the parameters and the result. -/
  about : ∀ symbol ∈ synthesizer.specification.constants,
    symbol = synthesizer.resultPlaceholder ∨ symbol ∈ synthesizer.parameters
  distinct : synthesizer.parameters.Nodup
  apart : synthesizer.resultPlaceholder ∉ synthesizer.parameters
  /-- The candidates are over parameters. -/
  inputs : ∀ symbol ∈ synthesizer.grammarInputs, symbol ∈ synthesizer.parameters

variable {synthesizer : RefutationSynthesizer} {interp : Interp}

/-- The term satisfies the specification at an input. -/
def Covers (synthesizer : RefutationSynthesizer) (interp : Interp) (term : Term)
    (input : Assignment) : Prop :=
  Models interp (synthesizer.specified term) input

theorem covers_iff (valid : synthesizer.Valid) (term : Term) (input : Assignment) :
    synthesizer.Covers interp term input ↔ Models interp synthesizer.specification
      (input.replace interp [(synthesizer.resultPlaceholder, term)]) := by
  rw [Covers, Models, specified, eval_substitute _ _ valid.plain, Models]

variable {term : Term} {other : Nat}

theorem covers_congr (valid : synthesizer.Valid) {other : Term} {input : Assignment}
    (same : eval interp term input = eval interp other input) :
    synthesizer.Covers interp term input ↔ synthesizer.Covers interp other input := by
  have replaced : input.replace interp [(synthesizer.resultPlaceholder, term)] =
      input.replace interp [(synthesizer.resultPlaceholder, other)] := by
    funext symbol
    simp only [Assignment.replace, List.lookup]
    split
    · rename_i found
      split at found <;> simp_all
    · rename_i found
      split at found <;> simp_all
  rw [covers_iff valid, covers_iff valid, replaced]

/-- It satisfies the specification where one of the terms does. -/
theorem covers_assemble (valid : synthesizer.Valid) (first : SynthesisSelection)
    (later : List SynthesisSelection) (input : Assignment) :
    synthesizer.Covers interp (synthesizer.assemble first later) input ↔
      ∃ selection ∈ first :: later, synthesizer.Covers interp selection.term input := by
  have fold : ∀ (rest : List SynthesisSelection) (start : Term),
      synthesizer.Covers interp (rest.foldl (fun assembled selection =>
        .app .ite [synthesizer.specified selection.term, selection.term, assembled]) start) input ↔
      synthesizer.Covers interp start input ∨
        ∃ selection ∈ rest, synthesizer.Covers interp selection.term input := by
    intro rest
    induction rest with
    | nil => simp
    | cons selection rest ih =>
      intro start
      rw [foldl_cons, ih]
      have value : eval interp (.app .ite [synthesizer.specified selection.term, selection.term,
          start]) input = choose (eval interp (synthesizer.specified selection.term) input)
            (eval interp selection.term input) (eval interp start input) := by
        rw [eval_app]
        rfl
      have branch : synthesizer.Covers interp (.app .ite [synthesizer.specified selection.term,
          selection.term, start]) input ↔ synthesizer.Covers interp start input ∨
            synthesizer.Covers interp selection.term input := by
        by_cases holds : synthesizer.Covers interp selection.term input
        · rw [covers_congr valid (value.trans (if_pos holds))]
          simp [holds]
        · rw [covers_congr valid (value.trans (if_neg holds))]
          simp [holds]
      rw [branch, or_assoc]
      simp
  rw [assemble, fold]
  simp

/-! ### Counterexample constants and labels -/

variable {index : Nat} {parameter : Const}

theorem counterexampleParameter_injective {second : Const}
    (same : synthesizer.counterexampleParameter index parameter =
      synthesizer.counterexampleParameter other second) : index = other := by
  have names := congrArg Const.name same
  simp only [counterexampleParameter] at names
  exact Scan.toString_injective (by simpa using names)

theorem label_injective (same : synthesizer.label index = synthesizer.label other) :
    index = other := by
  have names := congrArg Const.name same
  simp only [label] at names
  exact Scan.toString_injective (by simpa using names)

theorem label_ne_counterexampleParameter :
    synthesizer.label index ≠ synthesizer.counterexampleParameter other parameter := by
  intro same
  have names := congrArg (fun symbol => symbol.name.toList) same
  simp only [label, counterexampleParameter, String.toList_append, append_assoc,
    append_cancel_left_eq] at names
  simp at names

theorem toCounterexample_lookup (valid : synthesizer.Valid)
    (here : (parameter, index) ∈ synthesizer.parameters.zipIdx) :
    synthesizer.toCounterexample.lookup parameter =
      some (.constant (synthesizer.counterexampleParameter index parameter)) := by
  refine Map.lookup_of_mem ?_ (mem_map_of_mem here)
  simpa [toCounterexample, map_map, Function.comp_def] using valid.distinct

theorem toCounterexample_lookup_none (other : symbol ∉ synthesizer.parameters) :
    synthesizer.toCounterexample.lookup symbol = none := by
  refine lookup_eq_none_iff.mpr ?_
  intro entry member
  obtain ⟨item, known, rfl⟩ := mem_map.mp member
  have inside : item.1 ∈ synthesizer.parameters := (mem_zipIdx' known).2 ▸ getElem_mem _
  refine bne_iff_ne.mpr ?_
  rintro rfl
  exact other inside

theorem exists_place (member : parameter ∈ synthesizer.parameters) :
    ∃ index, (parameter, index) ∈ synthesizer.parameters.zipIdx := by
  obtain ⟨index, inside, rfl⟩ := mem_iff_getElem.mp member
  exact ⟨index, mk_mem_zipIdx_iff_getElem?.mpr (List.getElem?_eq_getElem inside)⟩

/-- The input that the counterexample constants give. -/
noncomputable def input (synthesizer : RefutationSynthesizer) (interp : Interp)
    (assignment : Assignment) : Assignment :=
  assignment.replace interp synthesizer.toCounterexample

section

variable (valid : synthesizer.Valid)

include valid

theorem input_parameter (assignment : Assignment)
    (here : (parameter, index) ∈ synthesizer.parameters.zipIdx) :
    synthesizer.input interp assignment parameter =
      assignment (synthesizer.counterexampleParameter index parameter) := by
  rw [input, Assignment.replace, toCounterexample_lookup valid here]
  rfl

theorem models_instance (plain : term.quantifierFree = true) (assignment : Assignment) :
    Models interp (synthesizer.instance_ term) assignment ↔
      synthesizer.Covers interp term (synthesizer.input interp assignment) := by
  rw [covers_iff valid, Models, instance_, eval_substitute _ _ valid.plain]
  refine models_congr _ ?_
  intro symbol member
  rw [Assignment.replace, Assignment.replace, lookup_append]
  rcases valid.about symbol member with rfl | known
  · rw [toCounterexample_lookup_none valid.apart]
    simp only [Option.none_or, lookup_cons_self]
    exact eval_substitute _ _ plain
  · obtain ⟨index, here⟩ := exists_place known
    have other : symbol ≠ synthesizer.resultPlaceholder := by
      rintro rfl
      exact valid.apart known
    have missed : List.lookup symbol [(synthesizer.resultPlaceholder, term)] = none := by
      simp [other]
    rw [toCounterexample_lookup valid here, missed, Option.some_or]
    exact (input_parameter valid assignment here).symm

/-- Whether a term satisfies the specification depends on the parameters. -/
theorem covers_input (within : ∀ symbol ∈ term.constants, symbol ∈ synthesizer.parameters)
    {first second : Assignment}
    (agree : ∀ symbol ∈ synthesizer.parameters, first symbol = second symbol) :
    synthesizer.Covers interp term first ↔ synthesizer.Covers interp term second := by
  rw [covers_iff valid, covers_iff valid]
  refine models_congr _ ?_
  intro symbol member
  rw [Assignment.replace, Assignment.replace]
  rcases valid.about symbol member with rfl | known
  · simp only [lookup_cons_self]
    exact eval_congr term fun other inside => agree other (within other inside)
  · have other : symbol ≠ synthesizer.resultPlaceholder := by
      rintro rfl
      exact valid.apart known
    have missed : List.lookup symbol [(synthesizer.resultPlaceholder, term)] = none := by
      simp [other]
    rw [missed]
    exact agree symbol known

theorem instance_constants (plain : term.quantifierFree = true)
    (within : ∀ symbol ∈ term.constants, symbol ∈ synthesizer.parameters)
    (member : symbol ∈ (synthesizer.instance_ term).constants) :
    ∃ parameter index, (parameter, index) ∈ synthesizer.parameters.zipIdx ∧
      symbol = synthesizer.counterexampleParameter index parameter := by
  have renamed : ∀ parameter ∈ synthesizer.parameters,
      symbol ∈ ((synthesizer.toCounterexample.lookup parameter).getD (.constant parameter)).constants →
        ∃ parameter index, (parameter, index) ∈ synthesizer.parameters.zipIdx ∧
          symbol = synthesizer.counterexampleParameter index parameter := by
    intro parameter known found
    obtain ⟨index, here⟩ := exists_place known
    rw [toCounterexample_lookup valid here] at found
    exact ⟨parameter, index, here, mem_singleton.mp found⟩
  obtain ⟨other, about, found⟩ := Term.mem_constants_substitute _ _ valid.plain member
  rw [lookup_append] at found
  rcases valid.about other about with rfl | known
  · rw [toCounterexample_lookup_none valid.apart, Option.none_or, lookup_cons_self,
      Option.getD_some] at found
    obtain ⟨parameter, inside, found⟩ := Term.mem_constants_substitute _ _ plain found
    exact renamed parameter (within parameter inside) found
  · refine renamed other known ?_
    obtain ⟨index, here⟩ := exists_place known
    rw [toCounterexample_lookup valid here] at found ⊢
    exact found

/-! ### Selections of a run -/

/-- The term is over the parameters, without quantifiers. -/
structure Admissible (synthesizer : RefutationSynthesizer) (term : Term) : Prop where
  plain : term.quantifierFree = true
  within : ∀ symbol ∈ term.constants, symbol ∈ synthesizer.parameters

theorem admissible_of_grammar {size : Nat} (grammar : Grammar synthesizer.grammarInputs size term) :
    synthesizer.Admissible term := by
  induction grammar with
  | input member isInt =>
    refine ⟨rfl, ?_⟩
    intro symbol inside
    rw [mem_singleton.mp inside]
    exact valid.inputs _ member
  | zero | one => exact ⟨rfl, nofun⟩
  | add _ _ left right | sub _ _ left right =>
    constructor
    · rw [Term.quantifierFree, Term.quantifierFreeAll_iff]
      exact forall_mem_cons.mpr ⟨left.plain, forall_mem_singleton.mpr right.plain⟩
    · intro symbol inside
      rw [Term.constants, Term.constantsAll_eq] at inside
      simp only [flatMap_cons, flatMap_nil, append_nil, mem_append] at inside
      exact inside.elim (left.within symbol) (right.within symbol)

end

/-- Instances of admissible terms under labels in order. -/
structure Selected (synthesizer : RefutationSynthesizer) (selections : List SynthesisSelection) :
    Prop where
  labels : ∀ index selection, selections[index]? = some selection →
    selection.label = synthesizer.label index
  instances : ∀ selection ∈ selections,
    selection.groundInstance = synthesizer.instance_ selection.term
  admissible : ∀ selection ∈ selections, synthesizer.Admissible selection.term

theorem Selected.label_of_mem {selections : List SynthesisSelection}
    (selected : synthesizer.Selected selections) {selection : SynthesisSelection}
    (member : selection ∈ selections) : ∃ index, selection.label = synthesizer.label index := by
  obtain ⟨index, inside, rfl⟩ := mem_iff_getElem.mp member
  exact ⟨index, selected.labels index _ (List.getElem?_eq_getElem inside)⟩

theorem Selected.eq_of_label {selections : List SynthesisSelection}
    (selected : synthesizer.Selected selections) {first second : SynthesisSelection}
    (left : first ∈ selections) (right : second ∈ selections) (same : first.label = second.label) :
    first = second := by
  obtain ⟨index, inside, rfl⟩ := mem_iff_getElem.mp left
  obtain ⟨other, inside', rfl⟩ := mem_iff_getElem.mp right
  rw [selected.labels index _ (List.getElem?_eq_getElem inside),
    selected.labels other _ (List.getElem?_eq_getElem inside')] at same
  cases label_injective same
  rfl

/-- An input of the parameters' sorts. -/
abbrev Input (synthesizer : RefutationSynthesizer) (interp : Interp) : Type :=
  { input : Assignment // input.Sorted interp.shapes synthesizer.parameters }

def Inhabited (synthesizer : RefutationSynthesizer) (interp : Interp) : Prop :=
  ∀ parameter ∈ synthesizer.parameters,
    ∃ element : Element, element.Inhabits interp.shapes parameter.sort.meaning

/-- The assumed labels of a core, and other selections, at an input. -/
noncomputable def witnessAt (synthesizer : RefutationSynthesizer) (on off : List Const)
    (input : Assignment) : Assignment := fun symbol =>
  if symbol ∈ on then .truth True
  else if symbol ∈ off then .truth False
  else match (synthesizer.parameters.zipIdx.map fun entry =>
      (synthesizer.counterexampleParameter entry.2 entry.1, entry.1)).lookup symbol with
    | some parameter => input parameter
    | none => default

theorem witnessAt_counterexampleParameter {on off : List Const} (input : Assignment)
    (here : (parameter, index) ∈ synthesizer.parameters.zipIdx)
    (labels : ∀ symbol ∈ on ++ off, ∃ index, symbol = synthesizer.label index) :
    synthesizer.witnessAt on off input (synthesizer.counterexampleParameter index parameter) =
      input parameter := by
  have other : synthesizer.counterexampleParameter index parameter ∉ on ++ off := by
    intro member
    obtain ⟨place, same⟩ := labels _ member
    exact label_ne_counterexampleParameter same.symm
  rw [mem_append, not_or] at other
  have found : (synthesizer.parameters.zipIdx.map fun entry =>
      (synthesizer.counterexampleParameter entry.2 entry.1, entry.1)).lookup
        (synthesizer.counterexampleParameter index parameter) = some parameter := by
    refine Map.lookup_of_mem ?_ (mem_map.mpr ⟨(parameter, index), here, rfl⟩)
    rw [map_map]
    have places : synthesizer.parameters.zipIdx.Nodup :=
      List.Nodup.of_map Prod.snd (by rw [zipIdx_map_snd]; exact nodup_range')
    refine List.Nodup.map_on ?_ places
    rintro ⟨first, place⟩ known ⟨second, place'⟩ known' same
    cases counterexampleParameter_injective same
    have one := mk_mem_zipIdx_iff_getElem?.mp known
    have two := mk_mem_zipIdx_iff_getElem?.mp known'
    rw [one] at two
    cases two
    rfl
  rw [witnessAt, if_neg other.1, if_neg other.2, found]

/-- Elements of their sorts for constants that have one. -/
noncomputable def settle (interp : Interp) (assignment : Assignment) : Assignment := fun symbol =>
  open Classical in
  if (assignment symbol).Inhabits interp.shapes symbol.sort.meaning then assignment symbol
  else if some : ∃ element : Element, element.Inhabits interp.shapes symbol.sort.meaning
    then some.choose else assignment symbol

theorem settle_of_sorted {assignment : Assignment}
    (sorted : (assignment symbol).Inhabits interp.shapes symbol.sort.meaning) :
    settle interp assignment symbol = assignment symbol := if_pos sorted

theorem settle_sorted (assignment : Assignment)
    (some : ∃ element : Element, element.Inhabits interp.shapes symbol.sort.meaning) :
    (settle interp assignment symbol).Inhabits interp.shapes symbol.sort.meaning := by
  unfold settle
  split
  · assumption
  · exact some.choose_spec

section Queries

variable {selections : List SynthesisSelection} {tests core : List Term}

/-- Activated instances, instances of tested terms, and assumed labels. -/
def query (synthesizer : RefutationSynthesizer) (selections : List SynthesisSelection)
    (tests core : List Term) : List Term :=
  selections.map SynthesisSelection.assertion ++ tests.map synthesizer.instance_ ++ core

def Labels (selections : List SynthesisSelection) (core : List Term) : Prop :=
  ∀ term ∈ core, ∃ selection ∈ selections, term = .constant selection.label

/-- A satisfiable query has an input that tested terms cover, and no selection. -/
theorem exists_input_of_satisfiable (valid : synthesizer.Valid)
    (inhabited : synthesizer.Inhabited interp) (selected : synthesizer.Selected selections)
    (tested : ∀ term ∈ tests, synthesizer.Admissible term)
    (satisfiable : Satisfiable interp (synthesizer.query selections tests core)) :
    ∃ point : synthesizer.Input interp,
      (∀ selection ∈ coreSelections selections core,
        ¬ synthesizer.Covers interp selection.term point.1) ∧
      ∀ term ∈ tests, synthesizer.Covers interp term point.1 := by
  obtain ⟨assignment, sorted, models⟩ := satisfiable
  have holds : ∀ term ∈ synthesizer.query selections tests core,
      Models interp term (settle interp assignment) := by
    intro term member
    refine (models_congr term fun symbol inside => ?_).mp (models term member)
    exact (settle_of_sorted (sorted symbol (mem_flatMap.mpr ⟨term, member, inside⟩))).symm
  have inputSorted : (synthesizer.input interp (settle interp assignment)).Sorted interp.shapes
      synthesizer.parameters := by
    intro parameter member
    obtain ⟨index, here⟩ := exists_place member
    rw [input_parameter valid _ here]
    exact settle_sorted assignment (inhabited parameter member)
  refine ⟨⟨_, inputSorted⟩, ?_, ?_⟩
  · intro selection member
    obtain ⟨member, assumed⟩ := mem_filter.mp member
    have label := holds (.constant selection.label) (mem_append_right _ (of_decide_eq_true assumed))
    have assertion := holds selection.assertion
      (mem_append_left _ (mem_append_left _ (mem_map_of_mem member)))
    rw [SynthesisSelection.assertion, models_imp, models_neg, selected.instances _ member,
      models_instance valid (selected.admissible _ member).plain] at assertion
    exact assertion label
  · intro term member
    have instance_ := holds (synthesizer.instance_ term)
      (mem_append_left _ (mem_append_right _ (mem_map_of_mem member)))
    rwa [models_instance valid (tested term member).plain] at instance_

/-- An input that tested terms cover, and no selection, satisfies the query. -/
theorem satisfiable_of_input (valid : synthesizer.Valid)
    (selected : synthesizer.Selected selections)
    (tested : ∀ term ∈ tests, synthesizer.Admissible term) (labels : Labels selections core)
    (point : synthesizer.Input interp)
    (uncovered : ∀ selection ∈ coreSelections selections core,
      ¬ synthesizer.Covers interp selection.term point.1)
    (covered : ∀ term ∈ tests, synthesizer.Covers interp term point.1) :
    Satisfiable interp (synthesizer.query selections tests core) := by
  set on := (coreSelections selections core).map SynthesisSelection.label with on_eq
  set off := selections.map SynthesisSelection.label with off_eq
  set assignment := synthesizer.witnessAt on off point.1 with assignment_eq
  have fresh : ∀ symbol ∈ on ++ off, ∃ index, symbol = synthesizer.label index := by
    refine forall_mem_append.mpr ⟨forall_mem_map.mpr ?_, forall_mem_map.mpr ?_⟩
    · intro selection member
      exact selected.label_of_mem (mem_filter.mp member).1
    · intro selection member
      exact selected.label_of_mem member
  have value : ∀ {parameter : Const} {index : Nat},
      (parameter, index) ∈ synthesizer.parameters.zipIdx →
        assignment (synthesizer.counterexampleParameter index parameter) = point.1 parameter :=
    fun here => witnessAt_counterexampleParameter point.1 here fresh
  have agree : ∀ symbol ∈ synthesizer.parameters,
      synthesizer.input interp assignment symbol = point.1 symbol := by
    intro symbol member
    obtain ⟨index, here⟩ := exists_place member
    rw [input_parameter valid _ here, value here]
  have covers : ∀ {term : Term}, synthesizer.Admissible term →
      (Models interp (synthesizer.instance_ term) assignment ↔
        synthesizer.Covers interp term point.1) := by
    intro term admissible
    rw [models_instance valid admissible.plain, covers_input valid admissible.within agree]
  have assumed : ∀ symbol ∈ on, assignment symbol = .truth True := fun symbol member =>
    if_pos member
  have dropped : ∀ symbol ∉ on, symbol ∈ off → assignment symbol = .truth False :=
    fun symbol out member => (if_neg out).trans (if_pos member)
  have labelSorted : ∀ selection ∈ selections, (assignment selection.label).Inhabits interp.shapes
      selection.label.sort.meaning := by
    intro selection member
    obtain ⟨index, same⟩ := selected.label_of_mem member
    have isBool : selection.label.sort = .bool := by rw [same]; rfl
    rw [isBool]
    by_cases here : selection.label ∈ on
    · rw [assumed _ here]
      exact rfl
    · rw [dropped _ here (mem_map_of_mem member)]
      exact rfl
  have instanceSorted : ∀ {term : Term}, synthesizer.Admissible term →
      assignment.Sorted interp.shapes (synthesizer.instance_ term).constants := by
    intro term admissible symbol member
    obtain ⟨parameter, index, here, rfl⟩ :=
      instance_constants valid admissible.plain admissible.within member
    rw [value here]
    exact point.2 parameter (mem_zipIdx' here |>.2 ▸ getElem_mem _)
  refine ⟨assignment, ?_, ?_⟩
  · intro symbol member
    obtain ⟨term, inside, member⟩ := mem_flatMap.mp member
    rcases mem_append.mp inside with asserted | assumption_
    · rcases mem_append.mp asserted with activated | test
      · obtain ⟨selection, known, rfl⟩ := mem_map.mp activated
        rw [SynthesisSelection.assertion, Term.imp, Term.neg, selected.instances _ known] at member
        simp only [Term.constants, Term.constantsAll_eq, flatMap_cons, flatMap_nil,
          append_nil, mem_append, mem_singleton] at member
        rcases member with rfl | member
        · exact labelSorted selection known
        · exact instanceSorted (selected.admissible _ known) symbol member
      · obtain ⟨candidate, known, rfl⟩ := mem_map.mp test
        exact instanceSorted (tested candidate known) symbol member
    · obtain ⟨selection, known, rfl⟩ := labels term assumption_
      rw [mem_singleton.mp member]
      exact labelSorted selection known
  · intro term inside
    rcases mem_append.mp inside with asserted | assumption_
    · rcases mem_append.mp asserted with activated | test
      · obtain ⟨selection, known, rfl⟩ := mem_map.mp activated
        rw [SynthesisSelection.assertion, models_imp, models_neg, selected.instances _ known,
          covers (selected.admissible _ known)]
        intro label
        by_cases here : selection.label ∈ on
        · obtain ⟨other, member, same⟩ := mem_map.mp here
          rw [← selected.eq_of_label (mem_filter.mp member).1 known same]
          exact uncovered other member
        · have off' : assignment selection.label = .truth False :=
            dropped _ here (mem_map_of_mem known)
          rw [Models, eval, off', Element.truth_holds] at label
          exact label.elim
      · obtain ⟨candidate, known, rfl⟩ := mem_map.mp test
        exact (covers (tested candidate known)).mpr (covered candidate known)
    · obtain ⟨selection, known, rfl⟩ := labels term assumption_
      have here : selection.label ∈ on :=
        mem_map_of_mem (mem_filter.mpr ⟨known, decide_eq_true assumption_⟩)
      rw [Models, eval, assumed _ here, Element.truth_holds]
      trivial

end Queries

/-! ## What every run keeps -/

/-- So many candidates taken, the last perhaps under test. -/
structure Running (synthesizer : RefutationSynthesizer) (search : SynthesisSearch) (taken : Nat) :
    Prop where
  candidates : search.candidates = .after synthesizer.grammarInputs taken
  /-- The candidate under test is the last that was taken. -/
  testing : ∀ found, search.selected = some found →
    ∃ index, taken = index + 1 ∧ found = candidate synthesizer.grammarInputs index
  selected : synthesizer.Selected search.selections
  origins : ∀ selection ∈ search.selections, ∃ index < taken,
    selection.term = (candidate synthesizer.grammarInputs index).term

theorem Running.initial : synthesizer.Running (.initial synthesizer.grammarInputs) 0 :=
  ⟨rfl, nofun, ⟨nofun, nofun, nofun⟩, nofun⟩

variable {search : SynthesisSearch} {taken : Nat}

theorem Running.advance (running : synthesizer.Running search taken) :
    synthesizer.Running search.advance (taken + 1) where
  candidates := by
    rw [SynthesisSearch.advance, running.candidates]
    rfl
  testing := by
    intro found same
    refine ⟨taken, rfl, ?_⟩
    rw [SynthesisSearch.advance, running.candidates] at same
    exact (Option.some.inj same).symm
  selected := running.selected
  origins := by
    intro selection member
    obtain ⟨index, below, same⟩ := running.origins selection member
    exact ⟨index, Nat.lt_succ_of_lt below, same⟩

/-- The candidate under test is selected. -/
theorem Running.select (valid : synthesizer.Valid) (running : synthesizer.Running search taken)
    {found : Candidate} (testing : search.selected = some found) :
    synthesizer.Running (search.select synthesizer found) taken where
  candidates := running.candidates
  testing := nofun
  selected := by
    obtain ⟨index, -, rfl⟩ := running.testing found testing
    have admissible := admissible_of_grammar valid
      (candidate_grammar synthesizer.grammarInputs index)
    constructor
    · intro place selection here
      rw [SynthesisSearch.select] at here
      simp only at here
      by_cases old : place < search.selections.length
      · rw [List.getElem?_append_left old] at here
        exact running.selected.labels place selection here
      · rw [List.getElem?_append_right (by omega)] at here
        rw [List.getElem?_singleton] at here
        split at here
        · rename_i last
          cases here
          rw [show place = search.selections.length by omega]
        · cases here
    · intro selection member
      rcases mem_append.mp member with old | new
      · exact running.selected.instances selection old
      · rw [mem_singleton.mp new]
    · intro selection member
      rcases mem_append.mp member with old | new
      · exact running.selected.admissible selection old
      · rw [mem_singleton.mp new]
        exact admissible
  origins := by
    obtain ⟨index, rfl, rfl⟩ := running.testing found testing
    intro selection member
    rcases mem_append.mp member with old | new
    · exact running.origins selection old
    · rw [mem_singleton.mp new]
      exact ⟨index, Nat.lt_succ_self _, rfl⟩

/-- What a query of the loops can lead to. -/
theorem step_cases (solver : CoreSolver) (search : SynthesisSearch) :
    (∃ core, search.selected = none ∧
        solver search.querySequence search.gamma search.active = .unsat core ∧
        synthesizer.step solver search =
          .refuted { search with querySequence := search.querySequence + 1 } core) ∨
      (∃ message, synthesizer.step solver search = .failed message) ∨
      (∃ model, search.selected = none ∧
        solver search.querySequence search.gamma search.active = .sat model ∧
        synthesizer.step solver search = .searching search.advance) ∨
      ∃ found, search.selected = some found ∧
        ((∃ model, solver search.querySequence
            (search.gamma ++ [synthesizer.instance_ found.term]) search.active = .sat model ∧
          synthesizer.step solver search = .searching (search.select synthesizer found)) ∨
        ∃ core, solver search.querySequence
            (search.gamma ++ [synthesizer.instance_ found.term]) search.active = .unsat core ∧
          synthesizer.step solver search = .searching search.advance) := by
  unfold step
  cases testing : search.selected with
  | none =>
    cases answer : solver search.querySequence search.gamma search.active with
    | unsat core => exact .inl ⟨core, rfl, rfl, rfl⟩
    | unknown reason => exact .inr (.inl ⟨_, rfl⟩)
    | sat model => exact .inr (.inr (.inl ⟨model, rfl, rfl, rfl⟩))
  | some found =>
    simp only
    cases answer : solver search.querySequence
        (search.gamma ++ [synthesizer.instance_ found.term]) search.active with
    | unsat core => exact .inr (.inr (.inr ⟨found, rfl, .inr ⟨core, answer, rfl⟩⟩))
    | unknown reason => exact .inr (.inl ⟨_, rfl⟩)
    | sat model => exact .inr (.inr (.inr ⟨found, rfl, .inl ⟨model, answer, rfl⟩⟩))

theorem Running.step (valid : synthesizer.Valid) (running : synthesizer.Running search taken)
    {solver : CoreSolver} {later : SynthesisSearch}
    (step : synthesizer.step solver search = .searching later) :
    ∃ taken', synthesizer.Running later taken' := by
  rcases @step_cases synthesizer solver search with ⟨_, _, _, ended⟩ | ⟨_, failed⟩ |
    ⟨_, _, _, went⟩ | ⟨found, testing, ⟨_, _, went⟩ | ⟨_, _, went⟩⟩
  · cases ended.symm.trans step
  · cases failed.symm.trans step
  · cases went.symm.trans step
    exact ⟨_, running.advance⟩
  · cases went.symm.trans step
    exact ⟨_, running.select valid testing⟩
  · cases went.symm.trans step
    exact ⟨_, running.advance⟩

/-- The states that the loops pass through. -/
inductive Reaches (solver : CoreSolver) (synthesizer : RefutationSynthesizer) :
    SynthesisSearch → Prop where
  | initial : Reaches solver synthesizer (.initial synthesizer.grammarInputs)
  | step {search later : SynthesisSearch} (before : Reaches solver synthesizer search)
      (went : synthesizer.step solver search = .searching later) : Reaches solver synthesizer later

theorem Reaches.running (valid : synthesizer.Valid) {solver : CoreSolver}
    (reaches : Reaches solver synthesizer search) : ∃ taken, synthesizer.Running search taken := by
  induction reaches with
  | initial => exact ⟨0, .initial⟩
  | step _ went ih =>
    obtain ⟨taken, running⟩ := ih
    exact running.step valid went

theorem searchFrom_refuted {solver : CoreSolver} {queries : Nat} {final : SynthesisSearch}
    {core : List Term} (reaches : Reaches solver synthesizer search)
    (ended : synthesizer.searchFrom solver queries search = .refuted final core) :
    ∃ last, Reaches solver synthesizer last ∧
      final = { last with querySequence := last.querySequence + 1 } := by
  induction queries generalizing search with
  | zero => cases ended
  | succ queries ih =>
    rw [searchFrom] at ended
    rcases @step_cases synthesizer solver search with ⟨_, _, _, refuted⟩ | ⟨_, failed⟩ |
      ⟨_, _, _, went⟩ | ⟨found, testing, ⟨_, _, went⟩ | ⟨_, _, went⟩⟩
    · rw [refuted] at ended
      cases ended
      exact ⟨search, reaches, rfl⟩
    · rw [failed] at ended
      cases ended
    · rw [went] at ended
      exact ih (reaches.step went) ended
    · rw [went] at ended
      exact ih (reaches.step went) ended
    · rw [went] at ended
      exact ih (reaches.step went) ended

end RefutationSynthesizer

end Fine.RuntimeDetail
