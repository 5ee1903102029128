import Fine.Rainfall.WellFormed

/-!
# Chronology of a replay

Source edges are checked against what the whole run declared, so an edge may come before what it
joins. Apart from edges, accepted replays are chronological.
-/

namespace Fine.Rainfall

open List

/-- The terms and source nodes that an event names. -/
def references (event : Json) : List (Operation × Json) :=
  let data := dataOf event
  match Operation.of (operationOf event) with
  | .hole => (data.get "grammar_inputs").items.map (Prod.mk .term)
  | .arm | .witness => [(.term, data.get "semantic_term")]
  | .clause =>
    (.term, data.get "proof_hint") :: (data.get "literals").items.map (Prod.mk .term) ++
      if Replay.isInstance (operationOf event) data then
        (.term, data.get "quantifier") :: (.term, data.get "instance") ::
          (data.get "ground_bindings").items.map (Prod.mk .term)
      else []
  | .evidence =>
    (.term, data.get "term") ::
      if (data.get "source").isNull then [] else [(.node, data.get "source")]
  | _ => []

/-- The event at a place declares what is named. -/
def DeclaredAt (events : List Json) (place : Nat) (reference : Operation × Json) : Prop :=
  ∃ event, events[place]? = some event ∧ Operation.of (operationOf event) = reference.1 ∧
    reference.2 = .text ((dataOf event).get "id").str

/-- An event names what is declared at smaller places. -/
def NamesEarlier (events : List Json) (index : Nat) (event : Json) : Prop :=
  ∀ reference ∈ references event, ∃ place < index, DeclaredAt events place reference

/-- Every event names only what events before it declare. -/
def Chronological (events : List Json) : Prop :=
  ∀ index event, events[index]? = some event → NamesEarlier events index event

/-- No source edge comes before what it names. -/
def EdgesLast (events : List Json) : Prop :=
  ∀ index event, events[index]? = some event → Operation.of (operationOf event) = .evidence →
    ∀ reference ∈ references event, ∀ place, DeclaredAt events place reference → place < index

variable {digest : Digest} {source : Bytes} {events : List Json}

variable {index : Nat}

theorem Names.declaredAt {kind : Operation} {reference : Json}
    (names : Names kind (events.take index) reference) :
    ∃ place < index, DeclaredAt events place (kind, reference) := by
  obtain ⟨data, member, same⟩ := names
  obtain ⟨place, event, below, found, is, rfl⟩ := mem_dataOfKind_take member
  exact ⟨place, below, event, found, is, same⟩

section

variable (formed : WellFormed digest source events)

include formed

variable {event : Json}

/-- All events but the source edges follow what they name. -/
theorem WellFormed.namesEarlier (found : events[index]? = some event)
    (other : Operation.of (operationOf event) ≠ .evidence) : NamesEarlier events index event := by
  have data := (formed.each index event found).data
  intro reference member
  rw [DataFormed] at data
  unfold references at member
  cases kind : Operation.of (operationOf event) with
  | evidence => exact absurd kind other
  | document | snapshot | node | term | lift | other =>
    rw [kind] at member
    cases member
  | hole =>
    rw [kind] at data member
    obtain ⟨item, inside, rfl⟩ := mem_map.mp member
    exact (data.terms item inside).declaredAt
  | arm | witness =>
    rw [kind] at data member
    rw [mem_singleton.mp member]
    exact data.term.declaredAt
  | clause =>
    rw [kind] at data member
    rcases mem_append.mp member with own | recorded
    · rcases mem_cons.mp own with rfl | literal
      · exact data.hint.declaredAt
      · obtain ⟨item, inside, rfl⟩ := mem_map.mp literal
        exact (data.literals item inside).declaredAt
    · split at recorded
      · rename_i records
        obtain ⟨infers, head⟩ := isInstance_iff.mp records
        have instance_ := data.instances infers head
        rcases mem_cons.mp recorded with rfl | recorded
        · exact instance_.quantifier.declaredAt
        rcases mem_cons.mp recorded with rfl | binding
        · exact instance_.instance_.declaredAt
        · obtain ⟨item, inside, rfl⟩ := mem_map.mp binding
          exact (instance_.terms item inside).declaredAt
      · cases recorded

theorem WellFormed.edge_declared (found : events[index]? = some event)
    (kind : Operation.of (operationOf event) = .evidence) :
    ∀ reference ∈ references event, ∃ place, DeclaredAt events place reference := by
  have anywhere : ∀ {kind : Operation} {reference : Json}, Names kind events reference →
      ∃ place, DeclaredAt events place (kind, reference) := by
    intro kind reference names
    rw [← take_length (l := events)] at names
    obtain ⟨place, -, declared⟩ := names.declaredAt
    exact ⟨place, declared⟩
  have edge := formed.edges (dataOf event) (mem_map_of_mem (mem_filter.mpr
    ⟨mem_of_getElem? found, decide_eq_true kind⟩))
  intro reference member
  simp only [references, kind] at member
  rcases mem_cons.mp member with rfl | member
  · exact anywhere edge.term
  · split at member
    · cases member
    · rename_i owned
      rw [mem_singleton.mp member]
      have outside : (dataOf event).get "correspondence" ≠ .text "internal_z3" :=
        fun same => owned (edge.internal same)
      obtain ⟨node, inside, same, -⟩ := edge.source outside
      exact anywhere ⟨node, inside, same⟩

theorem WellFormed.declared_unique {reference : Operation × Json}
    (kind : reference.1 = .term ∨ reference.1 = .node)
    {place other : Nat} (declared : DeclaredAt events place reference)
    (again : DeclaredAt events other reference) : place = other := by
  have nodup : (idsOf reference.1 events).Nodup := by
    rcases kind with is | is <;> rw [is]
    · exact formed.terms
    · exact formed.nodes
  have first : ∀ {place other}, DeclaredAt events place reference →
      DeclaredAt events other reference → ¬ place < other := by
    rintro place other ⟨event, found, is, named⟩ ⟨event', found', is', named'⟩ below
    refine nodup_dataOfKind_iff.mp nodup other event' found' is' ?_
    refine mem_map.mpr ⟨dataOf event, mem_map_of_mem (mem_filter.mpr
      ⟨mem_of_getElem? ((List.getElem?_take_of_lt below).trans found), ?_⟩), ?_⟩
    · exact decide_eq_true is
    · exact Json.text.inj (named.symm.trans named')
  have before := first declared again
  have behind := first again declared
  omega

end

/-- The events of an accepted replay have their places for numbers. Clauses, holes, arms and match
witnesses name only earlier terms, and the replay is chronological exactly when no source edge comes
before what it names. -/
theorem accepted_chronological_iff {counts : Counts}
    (accepted : validate digest source events = .ok counts) :
    (∀ (index : Nat) (event : Json), events[index]? = some event →
      (event.get "sequence").isNumber index = true) ∧
    (∀ index event, events[index]? = some event →
      Operation.of (operationOf event) ≠ .evidence → NamesEarlier events index event) ∧
    (Chronological events ↔ EdgesLast events) := by
  have formed := (validate_ok_iff.mp ⟨counts, accepted⟩).wellFormed
  refine ⟨fun index event found => (formed.each index event found).number,
    fun index event found => formed.namesEarlier found, ?_⟩
  constructor
  · intro chronological index event found kind reference member place declared
    obtain ⟨before, below, first⟩ := chronological index event found reference member
    have named : reference.1 = .term ∨ reference.1 = .node := by
      simp only [references, kind] at member
      rcases mem_cons.mp member with rfl | member
      · exact .inl rfl
      · split at member
        · cases member
        · exact .inr (congrArg Prod.fst (mem_singleton.mp member))
    rwa [formed.declared_unique named declared first]
  · intro last index event found
    by_cases kind : Operation.of (operationOf event) = .evidence
    · intro reference member
      obtain ⟨place, declared⟩ := formed.edge_declared found kind reference member
      exact ⟨place, last index event found kind reference member place declared, declared⟩
    · exact formed.namesEarlier found kind

/-- A small replay is chronological exactly when its edge is last. -/
theorem sample_chronological_iff :
    validate Digest.sample sampleSource
        (sampleReplay "run:0" "document:0" 0 sampleSource 0 3 sampleEdge) = .ok ⟨7, 1, 1, 1⟩ ∧
      (Chronological (sampleReplay "run:0" "document:0" 0 sampleSource 0 3 sampleEdge) ↔
        EdgesLast (sampleReplay "run:0" "document:0" 0 sampleSource 0 3 sampleEdge)) :=
  ⟨rfl, (@accepted_chronological_iff Digest.sample sampleSource _ ⟨7, 1, 1, 1⟩ rfl).2.2⟩

/-- A small replay whose edge comes before its term. -/
def earlyEdge : List Json :=
  (sampleReplay "run:0" "document:0" 0 sampleSource 0 3 sampleEdge).take 3 ++
    [sampleEvent "run:0" 3 "source.term.evidence" (("term", .text "term:0") :: sampleEdge),
      sampleEvent "run:0" 4 "term.declare" (sampleTerm "run:0"),
      sampleEvent "run:0" 5 "term.lift.validate"
        [("term", .text "term:0"), ("parse_reify_exact_identity", .bool true),
          ("rendering_hash", .text (Digest.sample.identity (Utf8.encode "true")))],
      sampleEvent "run:0" 6 "check.run.close" []]

/-- A replay is accepted whose edge names a term declared behind it. -/
theorem earlyEdge_accepted :
    validate Digest.sample sampleSource earlyEdge = .ok ⟨7, 1, 1, 1⟩ ∧
      ¬ Chronological earlyEdge := by
  refine ⟨rfl, fun chronological => ?_⟩
  obtain ⟨place, below, declaring, there, is, -⟩ := chronological 3 _ rfl
    (.term, .text "term:0") mem_cons_self
  match place, below with
  | 0, _ | 1, _ | 2, _ =>
    cases there
    cases is

end Fine.Rainfall
