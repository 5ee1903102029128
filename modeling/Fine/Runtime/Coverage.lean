import Fine.Runtime.Refutation

/-!
# What refutation synthesis finds

The loops are a search that covers the inputs by candidates in order. A refuted core covers every
input by its terms.
-/

namespace Fine.RuntimeDetail

open Fine.Syntax Fine.Semantics Fine.Covering List

def Verdict.Right (interp : Interp) (assertions assumptions : List Term) : Verdict → Prop
  | .sat _ => Satisfiable interp (assertions ++ assumptions)
  | .unsat core => ¬ Satisfiable interp (assertions ++ assumptions) ∧
      (∀ term ∈ core, term ∈ assumptions) ∧ ¬ Satisfiable interp (assertions ++ core)
  | .unknown _ => False

def CoreSolver.Right (solver : CoreSolver) (interp : Interp) : Prop :=
  ∀ number assertions assumptions,
    (solver number assertions assumptions).Right interp assertions assumptions

namespace RefutationSynthesizer

variable {synthesizer : RefutationSynthesizer} {interp : Interp} {search : SynthesisSearch}
  {solver : CoreSolver}

theorem coreSelections_active (search : SynthesisSearch) :
    coreSelections search.selections search.active = search.selections := by
  refine filter_eq_self.mpr ?_
  intro selection member
  exact decide_eq_true (mem_map_of_mem member)

theorem labels_active (search : SynthesisSearch) : Labels search.selections search.active := by
  intro term member
  obtain ⟨selection, known, rfl⟩ := mem_map.mp member
  exact ⟨selection, known, rfl⟩

/-! ## Cores -/

theorem core_covers (valid : synthesizer.Valid)
    (selected : synthesizer.Selected search.selections) {core : List Term}
    (labels : Labels search.selections core)
    (refuted : ¬ Satisfiable interp (search.gamma ++ core)) (point : synthesizer.Input interp) :
    ∃ selection ∈ coreSelections search.selections core,
      synthesizer.Covers interp selection.term point.1 := by
  by_contra none
  push Not at none
  have satisfiable := @satisfiable_of_input synthesizer interp search.selections [] core valid
    selected nofun labels point none nofun
  simp only [query, map_nil, append_nil] at satisfiable
  exact refuted satisfiable

/-- Where a core of the assumptions is refuted, it has a selection, and the assembled term satisfies
the specification at every input. -/
theorem assemble_covers (valid : synthesizer.Valid) (inhabited : synthesizer.Inhabited interp)
    {queries : Nat} {core : List Term}
    (ended : synthesizer.search solver queries = .refuted search core)
    (assumed : ∀ term ∈ core, term ∈ search.active)
    (refuted : ¬ Satisfiable interp (search.gamma ++ core)) :
    ∃ first later, coreSelections search.selections core = first :: later ∧
      ∀ point : synthesizer.Input interp,
        synthesizer.Covers interp (synthesizer.assemble first later) point.1 := by
  obtain ⟨last, reaches, rfl⟩ := searchFrom_refuted .initial ended
  obtain ⟨taken, running⟩ := reaches.running valid
  have labels : Labels last.selections core := fun term member =>
    labels_active last term (assumed term member)
  have covers := @core_covers synthesizer interp last valid running.selected core labels refuted
  cases members : coreSelections last.selections core with
  | nil =>
    -- With no selection every input would be uncovered, and there is one.
    have point : synthesizer.Input interp := ⟨settle interp default, fun parameter member =>
      settle_sorted default (inhabited parameter member)⟩
    obtain ⟨selection, member, -⟩ := covers point
    rw [members] at member
    cases member
  | cons first later =>
    refine ⟨first, later, rfl, ?_⟩
    intro point
    rw [covers_assemble valid, ← members]
    exact covers point

/-! ## Relative completeness -/

/-- All but the candidate under test. -/
def decided (search : SynthesisSearch) (taken : Nat) : Search Term where
  consumed := if search.selected.isSome then taken - 1 else taken
  selected := search.selections.map SynthesisSelection.term

/-- The term satisfies the specification at the input. -/
def CoversAt (synthesizer : RefutationSynthesizer) (interp : Interp) (term : Term)
    (point : synthesizer.Input interp) : Prop := synthesizer.Covers interp term point.1

def candidateTerm (synthesizer : RefutationSynthesizer) (index : Nat) : Term :=
  (candidate synthesizer.grammarInputs index).term

/-- No candidate is lost, and one is tested only while an input is uncovered. -/
structure Covering (synthesizer : RefutationSynthesizer) (interp : Interp)
    (search : SynthesisSearch) (taken : Nat) : Prop extends synthesizer.Running search taken where
  spent : Spent synthesizer.candidateTerm (synthesizer.CoversAt interp) (decided search taken)
  uncovered : search.selected.isSome = true →
    ∃ point, Uncovered (synthesizer.CoversAt interp) (decided search taken).selected point

theorem uncovered_iff {taken : Nat} (point : synthesizer.Input interp) :
    Uncovered (synthesizer.CoversAt interp) (decided search taken).selected point ↔
      ∀ selection ∈ search.selections, ¬ synthesizer.Covers interp selection.term point.1 :=
  forall_mem_map

theorem gamma_satisfiable_iff (valid : synthesizer.Valid)
    (inhabited : synthesizer.Inhabited interp) {taken : Nat}
    (running : synthesizer.Running search taken) :
    Satisfiable interp (search.gamma ++ search.active) ↔
      ∃ point, Uncovered (synthesizer.CoversAt interp) (decided search taken).selected point := by
  have same : search.gamma ++ search.active =
      synthesizer.query search.selections [] search.active := by
    simp [query, SynthesisSearch.gamma]
  rw [same]
  constructor
  · intro satisfiable
    obtain ⟨point, uncovered, -⟩ := @exists_input_of_satisfiable synthesizer interp
      search.selections [] search.active valid inhabited running.selected nofun satisfiable
    rw [coreSelections_active] at uncovered
    exact ⟨point, (uncovered_iff point).mpr uncovered⟩
  · rintro ⟨point, uncovered⟩
    refine satisfiable_of_input valid running.selected nofun (labels_active search) point ?_ nofun
    rw [coreSelections_active]
    exact (uncovered_iff point).mp uncovered

theorem test_satisfiable_iff (valid : synthesizer.Valid)
    (inhabited : synthesizer.Inhabited interp) {taken : Nat}
    (running : synthesizer.Running search taken) {term : Term}
    (admissible : synthesizer.Admissible term) :
    Satisfiable interp (search.gamma ++ [synthesizer.instance_ term] ++ search.active) ↔
      ∃ point, Uncovered (synthesizer.CoversAt interp) (decided search taken).selected point ∧
        synthesizer.CoversAt interp term point := by
  have tested : ∀ other ∈ [term], synthesizer.Admissible other :=
    forall_mem_singleton.mpr admissible
  constructor
  · intro satisfiable
    obtain ⟨point, uncovered, covered⟩ := exists_input_of_satisfiable valid inhabited
      running.selected tested satisfiable
    rw [coreSelections_active] at uncovered
    exact ⟨point, (uncovered_iff point).mpr uncovered, covered term (mem_singleton_self _)⟩
  · rintro ⟨point, uncovered, covered⟩
    refine satisfiable_of_input valid running.selected tested (labels_active search) point ?_
      (forall_mem_singleton.mpr covered)
    rw [coreSelections_active]
    exact (uncovered_iff point).mp uncovered

theorem Covering.initial : synthesizer.Covering interp (.initial synthesizer.grammarInputs) 0 :=
  ⟨.initial, Spent.initial _ _, nofun⟩

/-- With right answers a query ends the search or leads on. -/
theorem Covering.step (valid : synthesizer.Valid) (inhabited : synthesizer.Inhabited interp)
    (right : solver.Right interp) {taken : Nat}
    (covering : synthesizer.Covering interp search taken) :
    (∃ core, search.selected = none ∧ synthesizer.step solver search =
        .refuted { search with querySequence := search.querySequence + 1 } core ∧
        ¬ Satisfiable interp (search.gamma ++ search.active)) ∨
      ∃ later taken', synthesizer.step solver search = .searching later ∧
        synthesizer.Covering interp later taken' ∧
        ((search.selected = none ∧ later.selected.isSome = true ∧
            decided later taken' = decided search taken) ∨
          (search.selected.isSome = true ∧
            (decided later taken').consumed = (decided search taken).consumed + 1)) := by
  have running := covering.toRunning
  cases testing : search.selected with
  | none =>
    have answered := right search.querySequence search.gamma search.active
    cases answer : solver search.querySequence search.gamma search.active with
    | unknown reason =>
      rw [answer] at answered
      exact answered.elim
    | unsat core =>
      rw [answer] at answered
      refine .inl ⟨core, rfl, ?_, answered.1⟩
      simp only [RefutationSynthesizer.step, testing, answer]
    | sat model =>
      rw [answer] at answered
      have uncovered := (gamma_satisfiable_iff valid inhabited running).mp answered
      have same : decided search.advance (taken + 1) = decided search taken := by
        simp [decided, SynthesisSearch.advance, testing]
      refine .inr ⟨search.advance, taken + 1, ?_, ⟨running.advance, ?_, fun _ => ?_⟩,
        .inl ⟨rfl, rfl, same⟩⟩
      · simp only [RefutationSynthesizer.step, testing, answer]
      · rw [same]
        exact covering.spent
      · rw [same]
        exact uncovered
  | some found =>
    obtain ⟨index, count, isFound⟩ := running.testing found testing
    have grammar := candidate_grammar synthesizer.grammarInputs index
    rw [← isFound] at grammar
    have admissible := admissible_of_grammar valid grammar
    have asks := test_satisfiable_iff valid inhabited running admissible
    obtain ⟨point, uncovered⟩ := covering.uncovered (by rw [testing]; rfl)
    have before : decided search taken =
        ⟨index, search.selections.map SynthesisSelection.term⟩ := by
      simp [decided, testing, count]
    have term : found.term = synthesizer.candidateTerm index := by rw [isFound]; rfl
    have spent := covering.spent
    rw [before] at asks uncovered spent
    rw [term] at asks
    have answered := right search.querySequence
      (search.gamma ++ [synthesizer.instance_ found.term]) search.active
    cases answer : solver search.querySequence
        (search.gamma ++ [synthesizer.instance_ found.term]) search.active with
    | unknown reason =>
      rw [answer] at answered
      exact answered.elim
    | sat model =>
      rw [answer, term] at answered
      obtain ⟨point, open_, covered⟩ := asks.mp answered
      have after : decided (search.select synthesizer found) taken =
          ⟨index + 1, search.selections.map SynthesisSelection.term ++
            [synthesizer.candidateTerm index]⟩ := by
        simp [decided, SynthesisSearch.select, count, term]
      refine .inr ⟨search.select synthesizer found, taken, ?_,
        ⟨running.select valid testing, ?_, fun tested => absurd tested Bool.false_ne_true⟩,
        .inr ⟨rfl, ?_⟩⟩
      · simp only [RefutationSynthesizer.step, testing, answer]
      · rw [after]
        exact (Step.select point open_ covered).spent spent
      · rw [after, before]
    | unsat core =>
      rw [answer, term] at answered
      have useless : ∀ point, Uncovered (synthesizer.CoversAt interp)
          (search.selections.map SynthesisSelection.term) point →
            ¬ synthesizer.CoversAt interp (synthesizer.candidateTerm index) point :=
        fun point open_ covered => answered.1 (asks.mpr ⟨point, open_, covered⟩)
      have after : decided search.advance (taken + 1) =
          ⟨index + 1, search.selections.map SynthesisSelection.term⟩ := by
        simp [decided, SynthesisSearch.advance, count]
      refine .inr ⟨search.advance, taken + 1, ?_, ⟨running.advance, ?_, fun _ => ?_⟩,
        .inr ⟨rfl, ?_⟩⟩
      · simp only [RefutationSynthesizer.step, testing, answer]
      · rw [after]
        exact (Step.reject point uncovered useless).spent spent
      · rw [after]
        exact ⟨point, uncovered⟩
      · rw [after, before]

/-- With right answers the loops end by the last candidate needed. -/
theorem Covering.ends (valid : synthesizer.Valid) (inhabited : synthesizer.Inhabited interp)
    (right : solver.Right interp) {last : Nat}
    (enough : ∀ point : synthesizer.Input interp, ∃ index ≤ last,
      synthesizer.CoversAt interp (synthesizer.candidateTerm index) point) {taken : Nat}
    (covering : synthesizer.Covering interp search taken)
    (bounded : (decided search taken).consumed ≤ last + 1) :
    ∃ queries final core count, synthesizer.searchFrom solver queries search =
        .refuted final core ∧ ¬ Satisfiable interp (final.gamma ++ final.active) ∧
      synthesizer.Running final count ∧ count ≤ last + 1 := by
  -- A query that takes a candidate is followed by one that decides on it.
  generalize rank : 2 * (last + 1 - (decided search taken).consumed) +
    (if search.selected.isSome then 0 else 1) = steps
  induction steps using Nat.strongRecOn generalizing search taken with
  | ind steps ih =>
    rcases covering.step valid inhabited right with ⟨core, asking, ended, refuted⟩ |
      ⟨later, taken', went, next, progress⟩
    · refine ⟨1, { search with querySequence := search.querySequence + 1 }, core, taken, ?_,
        refuted, ?_, ?_⟩
      · rw [searchFrom, ended]
      · have running := covering.toRunning
        exact ⟨running.candidates, running.testing, running.selected, running.origins⟩
      · simpa [decided, asking] using bounded
    · have smaller : (decided later taken').consumed ≤ last + 1 ∧
          2 * (last + 1 - (decided later taken').consumed) +
            (if later.selected.isSome then 0 else 1) < steps := by
        rcases progress with ⟨asking, testing, same⟩ | ⟨testing, more⟩
        · rw [same]
          simp only [asking, Option.isSome_none, Bool.false_eq_true, ↓reduceIte] at rank
          simp only [testing, ↓reduceIte]
          exact ⟨bounded, by omega⟩
        · obtain ⟨point, uncovered⟩ := covering.uncovered testing
          have within := covering.spent.consumed_le enough uncovered
          simp only [testing, ↓reduceIte] at rank
          constructor
          · omega
          · split <;> omega
      obtain ⟨queries, final, core, count, ended, found⟩ := ih _ smaller.2 next smaller.1 rfl
      refine ⟨queries + 1, final, core, count, ?_, found⟩
      rw [searchFrom, went]
      exact ended

theorem exists_last {terms : List Term}
    (grammar : ∀ term ∈ terms, ∃ size, Grammar synthesizer.grammarInputs size term) :
    ∃ last, ∀ term ∈ terms, ∃ index ≤ last, synthesizer.candidateTerm index = term := by
  induction terms with
  | nil => exact ⟨0, nofun⟩
  | cons term terms ih =>
    obtain ⟨⟨size, here⟩, later⟩ := forall_mem_cons.mp grammar
    obtain ⟨index, found⟩ := exists_candidate here
    obtain ⟨last, known⟩ := ih later
    refine ⟨max index last, forall_mem_cons.mpr ⟨⟨index, Nat.le_max_left _ _, ?_⟩, ?_⟩⟩
    · rw [candidateTerm, found]
    · intro other member
      obtain ⟨place, within, same⟩ := known other member
      exact ⟨place, Nat.le_trans within (Nat.le_max_right _ _), same⟩

theorem Reaches.covering (valid : synthesizer.Valid) (inhabited : synthesizer.Inhabited interp)
    (right : solver.Right interp) (reaches : Reaches solver synthesizer search) :
    ∃ taken, synthesizer.Covering interp search taken := by
  induction reaches with
  | initial => exact ⟨0, .initial⟩
  | step _ went ih =>
    obtain ⟨taken, covering⟩ := ih
    rcases covering.step valid inhabited right with ⟨_, _, ended, _⟩ | ⟨_, taken', went', next, _⟩
    · cases ended.symm.trans went
    · cases went'.symm.trans went
      exact ⟨taken', next⟩

/-- Refutation synthesis is complete relative to the solver. If finitely many terms of the grammar
cover an integer specification and the solver answers rightly, the loops end with everything
covered, and neither select nor test a term behind all of these. -/
theorem search_complete (valid : synthesizer.Valid)
    (integers : ∀ parameter ∈ synthesizer.parameters, parameter.sort = .int)
    (right : solver.Right interp) {terms : List Term}
    (grammar : ∀ term ∈ terms, ∃ size, Grammar synthesizer.grammarInputs size term)
    (covered : ∀ point : synthesizer.Input interp,
      ∃ term ∈ terms, synthesizer.Covers interp term point.1) :
    (∃ last, ∀ term ∈ terms, ∃ index ≤ last, synthesizer.candidateTerm index = term) ∧
      ∀ last, (∀ term ∈ terms, ∃ index ≤ last, synthesizer.candidateTerm index = term) →
        (∃ queries final core, synthesizer.search solver queries = .refuted final core ∧
          ¬ Satisfiable interp (final.gamma ++ final.active) ∧
          ∀ selection ∈ final.selections, ∃ index ≤ last,
            selection.term = synthesizer.candidateTerm index) ∧
        ∀ search, Reaches solver synthesizer search → ∀ found, search.selected = some found →
          ∃ index ≤ last, found.term = synthesizer.candidateTerm index := by
  refine ⟨exists_last grammar, ?_⟩
  intro last enumerated
  have inhabited : synthesizer.Inhabited interp := by
    intro parameter member
    rw [integers parameter member]
    exact ⟨.plain (.int 0), rfl⟩
  have enough : ∀ point : synthesizer.Input interp, ∃ index ≤ last,
      synthesizer.CoversAt interp (synthesizer.candidateTerm index) point := by
    intro point
    obtain ⟨term, member, covers⟩ := covered point
    obtain ⟨index, within, rfl⟩ := enumerated term member
    exact ⟨index, within, covers⟩
  constructor
  · obtain ⟨queries, final, core, count, ended, refuted, running, few⟩ :=
      Covering.initial.ends valid inhabited right enough (Nat.zero_le _)
    refine ⟨queries, final, core, ended, refuted, ?_⟩
    intro selection member
    obtain ⟨index, below, same⟩ := running.origins selection member
    exact ⟨index, by omega, same⟩
  · intro search reaches found testing
    obtain ⟨taken, covering⟩ := reaches.covering valid inhabited right
    obtain ⟨index, count, rfl⟩ := covering.testing found testing
    obtain ⟨point, uncovered⟩ := covering.uncovered (by rw [testing]; rfl)
    have within := covering.spent.consumed_le enough uncovered
    refine ⟨index, ?_, rfl⟩
    simpa [decided, testing, count] using within

noncomputable def decider (interp : Interp) : CoreSolver := fun _ assertions assumptions =>
  open Classical in
  if Satisfiable interp (assertions ++ assumptions) then .sat fun _ => .numeral 0
  else .unsat assumptions

theorem decider_right (interp : Interp) : (decider interp).Right interp := by
  intro number assertions assumptions
  unfold decider
  split
  · assumption
  · rename_i refuted
    exact ⟨refuted, fun _ member => member, refuted⟩

def sampleParameter : Const := ⟨"Fine.synth.f.arg0", .int⟩

/-- The result of the sample. -/
def sampleResult : Const := ⟨"Fine.synth.f.result", .int⟩

/-- A positive result that is not below the parameter is asked for. -/
def upperBound : RefutationSynthesizer :=
  .make "f" [sampleParameter] sampleResult
    (.app .and [.app .ge [.constant sampleResult, .constant sampleParameter],
      .app .ge [.constant sampleResult, .numeral 1]]) []

/-- An interpretation where nothing is declared. -/
def undeclared : Interp :=
  ⟨fun _ => none, fun _ _ => default, fun _ _ => False, fun _ _ value => value⟩

theorem upperBound_valid : upperBound.Valid where
  plain := rfl
  about := by decide
  distinct := by decide
  apart := by decide
  inputs := by decide

/-- It is positive and not below the parameter. -/
theorem covers_upperBound {term : Term} {assignment : Assignment}
    (specified : upperBound.specified term =
      .app .and [.app .ge [term, .constant sampleParameter], .app .ge [term, .numeral 1]]) :
    upperBound.Covers undeclared term assignment ↔
      (assignment sampleParameter).number ≤ (eval undeclared term assignment).number ∧
        1 ≤ (eval undeclared term assignment).number := by
  rw [Covers, specified]
  simp [Models, eval, FuncDecl.apply, operate, Element.number]

/-- The parameter and one cover the sample together, so the loops end with candidates up to one.
Zero, which is tested between them, covers nothing. -/
theorem search_complete_upperBound : (∃ queries final core,
    upperBound.search (decider undeclared) queries = .refuted final core ∧
      ∀ selection ∈ final.selections, selection.term = .constant sampleParameter ∨
        selection.term = .numeral 0 ∨ selection.term = .numeral 1) ∧
    ∀ point : upperBound.Input undeclared,
      ¬ upperBound.Covers undeclared (.numeral 0) point.1 := by
  have candidates : upperBound.candidateTerm 0 = .constant sampleParameter ∧
      upperBound.candidateTerm 1 = .numeral 0 ∧ upperBound.candidateTerm 2 = .numeral 1 :=
    ⟨rfl, rfl, rfl⟩
  obtain ⟨first, second, third⟩ := candidates
  refine ⟨?_, fun point covers => ?_⟩
  · obtain ⟨-, ends⟩ := @search_complete upperBound undeclared (decider undeclared)
      upperBound_valid (by decide) (decider_right undeclared)
      [.constant sampleParameter, .numeral 1]
      (forall_mem_cons.mpr ⟨⟨1, .input (by decide) rfl⟩, forall_mem_singleton.mpr ⟨1, .one⟩⟩) (by
        intro point
        by_cases positive : 1 ≤ (point.1 sampleParameter).number
        · refine ⟨_, mem_cons_self, (covers_upperBound rfl).mpr ?_⟩
          exact ⟨le_refl _, positive⟩
        · refine ⟨.numeral 1, by simp, (covers_upperBound rfl).mpr ?_⟩
          have value : (eval undeclared (.numeral 1) point.1).number = 1 := rfl
          rw [value]
          omega)
    obtain ⟨⟨queries, final, core, ended, -, selected⟩, -⟩ := ends 2
      (forall_mem_cons.mpr ⟨⟨0, by decide, first⟩, forall_mem_singleton.mpr ⟨2, by decide, third⟩⟩)
    refine ⟨queries, final, core, ended, fun selection member => ?_⟩
    obtain ⟨index, within, same⟩ := selected selection member
    rw [same]
    interval_cases index
    · exact .inl first
    · exact .inr (.inl second)
    · exact .inr (.inr third)
  · have both := (covers_upperBound rfl).mp covers
    simp [eval, Element.number] at both

end RefutationSynthesizer

end Fine.RuntimeDetail
