import Fine.Library.Fallible
import Fine.Rainfall.Accepted

/-!
# When a replay can be projected

Projection reads fields that validation checks for some kinds of events only. `project_total_iff`
says which accepted replays it projects.
-/

namespace Fine.Rainfall

open Fallible List

variable {value event : Json} {key : String} {entries : List (String × Json)}

variable {result : Json} {α : Type} {kind : Operation} {name field : String} {replay : Replay}
  {displayed : Bytes} {edits : List Edit}

theorem Json.at_ok :
    value.at_ key = .ok result ↔ value.has key = true ∧ value.get key = result := by
  rw [Json.at_, require_bind_ok, pure_ok_iff]

theorem ok_bind {β : Type} (value : α) (next : α → Except String β) :
    (Except.ok value >>= next) = next value := rfl

theorem Json.at_bind_ok {next : Json → Except String α} {result : α} :
    (value.at_ key >>= next) = .ok result ↔
      value.has key = true ∧ next (value.get key) = .ok result := by
  simp only [bind_ok_iff, Json.at_ok]
  exact ⟨fun ⟨_, ⟨has, same⟩, run⟩ => ⟨has, same ▸ run⟩, fun ⟨has, run⟩ => ⟨_, ⟨has, rfl⟩, run⟩⟩

theorem subscript_ok {key : Json} :
    subscript entries key = .ok result ↔
      key.isIn (keys entries) = true ∧ find entries key = result := by
  rw [subscript, require_bind_ok, pure_ok_iff]

theorem subscript_bind_ok {key : Json} {next : Json → Except String α} {result : α} :
    (subscript entries key >>= next) = .ok result ↔
      key.isIn (keys entries) = true ∧ next (find entries key) = .ok result := by
  simp only [bind_ok_iff, subscript_ok]
  exact ⟨fun ⟨_, ⟨known, same⟩, run⟩ => ⟨known, same ▸ run⟩,
    fun ⟨known, run⟩ => ⟨_, ⟨known, rfl⟩, run⟩⟩

theorem Json.has_of_not_null (present : (value.get key).isNull = false) : value.has key = true := by
  cases value with
  | object fields =>
    cases found : fields.lookup key with
    | none => simp [Json.get, found, Json.isNull] at present
    | some _ => simp [Json.has, found]
  | _ => cases present

theorem Json.has_of_isText (isText : (value.get key).isText = true) : value.has key = true := by
  apply Json.has_of_not_null
  rw [Json.eq_text_of_isText isText]
  rfl

theorem Json.has_of_isObject (isObject : (value.get key).isObject = true) :
    value.has key = true := by
  apply Json.has_of_not_null
  cases found : value.get key <;> first | rfl | (rw [found] at isObject; cases isObject)

theorem Json.has_of_isArray (isArray : (value.get key).isArray = true) : value.has key = true := by
  apply Json.has_of_not_null
  cases found : value.get key <;> first | rfl | (rw [found] at isArray; cases isArray)

theorem Json.has_of_isInt (isInt : (value.get key).isInt = true) : value.has key = true := by
  apply Json.has_of_not_null
  cases found : value.get key <;> first | rfl | (rw [found] at isInt; cases isInt)

theorem find_mem {key : Json} (known : key.str ∈ keys entries) :
    (key.str, find entries key) ∈ entries := by
  induction entries with
  | nil => cases known
  | cons entry entries ih =>
    obtain ⟨name, value⟩ := entry
    by_cases same : key.str = name
    · have here : find ((name, value) :: entries) key = value := by
        simp [find, same]
      rw [here, same]
      exact mem_cons_self
    · have there : find ((name, value) :: entries) key = find entries key := by
        have test : (key.str == name) = false := beq_eq_false_iff_ne.mpr same
        simp [find, lookup_cons, test]
      have tail : key.str ∈ keys entries := by
        rcases mem_cons.mp known with head | tail
        · exact absurd head same
        · exact tail
      rw [there]
      exact mem_cons_of_mem _ (ih tail)

/-- The operation of each kind that has one name. -/
def Operation.name? : Operation → Option String
  | .document => some "source.document.declare"
  | .snapshot => some "source.snapshot.declare"
  | .node => some "source.node.declare"
  | .term => some "term.declare"
  | .lift => some "term.lift.validate"
  | .hole => some "synth.hole.declare"
  | .arm => some "synth.arm.close"
  | .witness => some "fine.match-witness"
  | .evidence => some "source.term.evidence"
  | .clause => none
  | .other => none

theorem Operation.of_eq_iff {expected : String} (named : kind.name? = some expected) :
    Operation.of name = kind ↔ name = expected := by
  constructor
  · intro same
    rw [Operation.of] at same
    split_ifs at same with h1 h2 h3 h4 h5 h6 h7 h8 h9 h10 <;> subst same <;>
      first | (cases named; assumption) | cases named
  · rintro rfl
    cases kind <;> cases named <;> rfl

theorem Operation.of_infer : Operation.of "z3.clause.infer" = .clause := rfl

variable {digest : Digest} {source : Bytes} {events : List Json}

namespace ReplayAccepted

variable (accepted : ReplayAccepted digest source events)

include accepted
theorem of_mem (member : event ∈ events) :
    ∃ index, (Replay.of (events.take index)).Accepted digest source (envelopeOf events) index
      event := by
  obtain ⟨index, found⟩ := mem_iff_getElem?.mp member
  exact ⟨index, accepted.each index event found⟩

variable {operation : String}

theorem named_eq (name : kind.name? = some operation) :
    named operation events = ofKind kind events := by
  apply filter_congr
  intro event member
  obtain ⟨index, there⟩ := accepted.of_mem member
  rw [Bool.eq_iff_iff, Json.isString_iff, decide_eq_true_eq, Operation.of_eq_iff name,
    Json.eq_text_of_isText there.operation]
  exact Json.text.injEq _ _ ▸ Iff.rfl

theorem of_data {data : Json} (member : data ∈ dataOfKind kind events) :
    ∃ index event, event ∈ events ∧ dataOf event = data ∧
      Operation.of (operationOf event) = kind ∧
      (Replay.of (events.take index)).Accepted digest source (envelopeOf events) index event := by
  obtain ⟨event, found, same⟩ := mem_map.mp member
  obtain ⟨there, ofKind⟩ := mem_filter.mp found
  obtain ⟨index, holds⟩ := accepted.of_mem there
  exact ⟨index, event, there, same, of_decide_eq_true ofKind, holds⟩

theorem declared_eq (name : kind.name? = some operation) :
    declared operation events =
      (dataOfKind kind events).map fun data => ((data.get "id").str, data) := by
  rw [declared, accepted.named_eq name, dataOfKind, map_map]
  rfl

theorem declared_nodes :
    declared "source.node.declare" events = (Replay.of events).sourceNodes :=
  accepted.declared_eq (show Operation.node.name? = _ from rfl)

theorem declared_terms :
    declared "term.declare" events = (Replay.of events).terms :=
  accepted.declared_eq (show Operation.term.name? = _ from rfl)

theorem evidence :
    (named "source.term.evidence" events).map dataOf = (Replay.of events).evidence := by
  rw [accepted.named_eq (show Operation.evidence.name? = _ from rfl)]
  rfl

theorem node {key : Json}
    (known : key.str ∈ keys (Replay.of events).sourceNodes) :
    ∃ replay, Replay.NodeAccepted source replay (find (Replay.of events).sourceNodes key) := by
  obtain ⟨data, member, same⟩ := mem_map.mp (find_mem known)
  obtain ⟨index, event, there, rfl, kind, holds⟩ := accepted.of_data member
  have checked := holds.data
  rw [Replay.DataAccepted, kind] at checked
  have found : dataOf event = find (Replay.of events).sourceNodes key := (Prod.mk.inj same).2
  rw [← found]
  exact ⟨_, checked⟩

theorem term {key : Json}
    (known : key.str ∈ keys (Replay.of events).terms) :
    ∃ replay, Replay.TermAccepted digest (envelopeOf events) replay
      (find (Replay.of events).terms key) := by
  obtain ⟨data, member, same⟩ := mem_map.mp (find_mem known)
  obtain ⟨index, event, there, rfl, kind, holds⟩ := accepted.of_data member
  have checked := holds.data
  rw [Replay.DataAccepted, kind] at checked
  have found : dataOf event = find (Replay.of events).terms key := (Prod.mk.inj same).2
  rw [← found]
  exact ⟨_, checked⟩

end ReplayAccepted

theorem keys_terms_take (index : Nat) (known : name ∈ keys (Replay.of (events.take index)).terms) :
    name ∈ keys (Replay.of events).terms := by
  obtain ⟨entry, member, same⟩ := mem_map.mp known
  obtain ⟨data, found, entry_eq⟩ := mem_map.mp member
  obtain ⟨event, ofKind, data_eq⟩ := mem_map.mp found
  obtain ⟨there, kind⟩ := mem_filter.mp ofKind
  refine mem_map.mpr ⟨entry, mem_map.mpr ⟨data, mem_map.mpr ⟨event, ?_, data_eq⟩, entry_eq⟩, same⟩
  exact mem_filter.mpr ⟨mem_of_mem_take there, kind⟩

theorem ReplayAccepted.termText (accepted : ReplayAccepted digest source events) {key : Json}
    (known : key.isIn (keys (Replay.of events).terms) = true) :
    termText (Replay.of events).terms key =
      .ok ((find (Replay.of events).terms key).get "text") := by
  obtain ⟨replay, term⟩ := accepted.term (Json.isIn_iff.mp known).2
  have has := Json.has_of_isText (Json.isText_of_isName term.rendering)
  rw [Rainfall.termText, bind_ok_iff]
  exact ⟨_, subscript_ok.mpr ⟨known, rfl⟩, Json.at_ok.mpr ⟨has, rfl⟩⟩

theorem termText_isIn {terms : List (String × Json)} {key text : Json}
    (found : Rainfall.termText terms key = .ok text) : key.isIn (keys terms) = true := by
  rw [Rainfall.termText, bind_ok_iff] at found
  obtain ⟨_, there, _⟩ := found
  exact (subscript_ok.mp there).1

theorem keyed_ok {entries : List (Json × Json)} :
    keyed field events = .ok entries ↔
      (∀ event ∈ events, event.has "data" = true ∧ (dataOf event).has field = true ∧
        ((dataOf event).get field).isHashable = true) ∧
      entries = events.map fun event => ((dataOf event).get field, event) := by
  have each (event : Json) (entry : Json × Json) : (do
        let data ← event.at_ "data"
        let key ← data.at_ field
        require key.isHashable "TypeError: unhashable type"
        return (key, event) : Except String (Json × Json)) = .ok entry ↔
      (event.has "data" = true ∧ (dataOf event).has field = true ∧
        ((dataOf event).get field).isHashable = true) ∧
        entry = ((dataOf event).get field, event) := by
    simp only [Json.at_bind_ok, require_bind_ok, pure_ok_iff, dataOf]
    rw [and_assoc, and_assoc, eq_comm (b := entry)]
  rw [keyed, mapM_ok_iff]
  simp only [each]
  exact forall₂_graph_iff

/-- The last event whose data name a text in a field. -/
def lastNaming (field : String) (events : List Json) (name : String) : Option Json :=
  events.reverse.find? fun event => ((dataOf event).get field).isString name

theorem lastUnder_map :
    lastUnder (events.map fun event => ((dataOf event).get field, event)) name =
      lastNaming field events name := by
  rw [lastUnder, lastNaming, ← map_reverse, find?_map, Option.map_map]
  exact Option.map_id'

theorem Replay.Accepted.has {envelope : Envelope} {index : Nat}
    (accepted : replay.Accepted digest source envelope index event) :
    event.has "data" = true ∧ event.has "event_id" = true ∧ event.has "within" = true :=
  ⟨Json.has_of_isObject accepted.object, Json.has_of_isText accepted.text,
    Json.has_of_isArray accepted.array⟩

namespace ReplayAccepted

variable (accepted : ReplayAccepted digest source events)

include accepted
theorem instanceClause {clause : Json} (member : clause ∈ instanceClauses events) :
    ∃ index, (Replay.of (events.take index)).Accepted digest source (envelopeOf events) index
        clause ∧ ∃ replay : Replay, replay.InstanceAccepted (idOf clause) (dataOf clause) ∧
      replay.terms = (Replay.of (events.take index)).terms := by
  obtain ⟨inferred, inst⟩ := mem_filter.mp member
  obtain ⟨there, operation⟩ := mem_filter.mp inferred
  obtain ⟨index, holds⟩ := accepted.of_mem there
  have name : operationOf clause = "z3.clause.infer" := by
    rw [operationOf, Json.isString_iff.mp operation]
    rfl
  have checked := holds.data
  rw [Replay.DataAccepted, name, Operation.of_infer] at checked
  have records : Replay.isInstance "z3.clause.infer" (dataOf clause) = true := by
    rw [Replay.isInstance, dataOf, inst]
    rfl
  exact ⟨index, holds, _, checked.instances records, rfl⟩

theorem keyed_lemmas :
    keyed "quantifier_instance_event" (instanceClauses events) =
      .ok ((instanceClauses events).map fun event =>
        ((dataOf event).get "quantifier_instance_event", event)) := by
  rw [keyed_ok]
  refine ⟨fun event member => ?_, rfl⟩
  obtain ⟨index, holds, replay, checked, _⟩ := accepted.instanceClause member
  have isText := (Json.isIn_iff.mp checked.event).1
  exact ⟨holds.has.1, Json.has_of_isText isText, Json.isHashable_of_isText isText⟩

theorem groundBindings (name : String) :
    ∃ bindings, groundBindings (Replay.of events).terms
      (lastNaming "quantifier_instance_event" (instanceClauses events) name) = .ok bindings := by
  cases found : lastNaming "quantifier_instance_event" (instanceClauses events) name with
  | none => exact ⟨[], rfl⟩
  | some clause =>
    have member : clause ∈ instanceClauses events := mem_reverse.mp (mem_of_find?_eq_some found)
    obtain ⟨index, holds, replay, checked, terms⟩ := accepted.instanceClause member
    have each : ∀ reference ∈ ((dataOf clause).get "ground_bindings").items, ∃ binding, (do
          let text ← Rainfall.termText (Replay.of events).terms reference
          return ⟨reference, text⟩ : Except String GroundBinding) = .ok binding := by
      intro reference inside
      obtain ⟨isText, known⟩ := Json.isIn_iff.mp (checked.terms reference inside)
      rw [terms] at known
      have text := accepted.termText (Json.isIn_iff.mpr ⟨isText, keys_terms_take index known⟩)
      exact ⟨_, bind_ok_iff.mpr ⟨_, text, rfl⟩⟩
    obtain ⟨bindings, run⟩ := exists_mapM_ok_iff.mpr each
    refine ⟨bindings, ?_⟩
    simp only [Rainfall.groundBindings, Json.at_bind_ok]
    exact ⟨holds.has.1, Json.has_of_isArray checked.bindings, run⟩

/-- An instance is shown just if it is a declared term. -/
theorem acceptedInstance (member : event ∈ events) :
    (∃ shown, acceptedInstance (Replay.of events).terms
      ((instanceClauses events).map fun event =>
        ((dataOf event).get "quantifier_instance_event", event)) event = .ok shown) ↔
      ((dataOf event).get "instance").isIn (keys (Replay.of events).terms) = true := by
  obtain ⟨index, holds⟩ := accepted.of_mem member
  obtain ⟨hasData, hasId, _⟩ := holds.has
  simp only [Rainfall.acceptedInstance, Json.at_bind_ok]
  simp only [bind_ok_iff, Json.at_ok, lastUnder_map]
  constructor
  · rintro ⟨_, _, _, _, _, ⟨_, rfl⟩, _, ⟨_, rfl⟩, _, text, _⟩
    exact termText_isIn text
  · intro known
    obtain ⟨bindings, run⟩ := accepted.groundBindings (event.get "event_id").str
    have clause : ∃ clause, (lastNaming "quantifier_instance_event" (instanceClauses events)
        (event.get "event_id").str).mapM (fun event => event.at_ "event_id") =
          (.ok clause : Except String (Option Json)) := by
      cases found : lastNaming "quantifier_instance_event" (instanceClauses events)
          (event.get "event_id").str with
      | none => exact ⟨none, rfl⟩
      | some clause =>
        have inside : clause ∈ instanceClauses events := mem_reverse.mp (mem_of_find?_eq_some found)
        obtain ⟨_, holds, _⟩ := accepted.instanceClause inside
        have id := Json.at_ok.mpr ⟨holds.has.2.1, rfl⟩
        refine ⟨some (clause.get "event_id"), ?_⟩
        rw [Option.mapM_some, id]
        rfl
    obtain ⟨clause, clauseRun⟩ := clause
    have has := Json.has_of_isText (Json.isIn_iff.mp known).1
    exact ⟨_, hasId, _, run, _, ⟨hasData, rfl⟩, _, ⟨has, rfl⟩, _, accepted.termText known, _,
      clauseRun, rfl⟩

end ReplayAccepted

/-- The last event that asserts the clause of a term. -/
def assertionFor (events : List Json) (term : String) : Option Json :=
  lastNaming "assertion" (named "bisim.clause.assert" events) term

/-- What an assertion has to say to be shown. -/
structure Shown (events : List Json) (assertion : Json) : Prop where
  /-- The assertion names the role of its clause. -/
  role : ((dataOf assertion).get "role").isText = true
  /-- The instances accepted for the role are declared terms. -/
  instances : ∀ event ∈ acceptedFor events
      ("fine.bisim." ++ ((dataOf assertion).get "role").str),
    ((dataOf event).get "instance").isIn (keys (declared "term.declare" events)) = true

/-- A term's activity can be shown just if its assertion says enough. -/
theorem ReplayAccepted.bisimulationActivity (accepted : ReplayAccepted digest source events)
    {reference : Json} :
    (∃ activity, bisimulationActivity events (Replay.of events).terms
      ((named "bisim.clause.assert" events).map fun event =>
        ((dataOf event).get "assertion", event))
      ((instanceClauses events).map fun event =>
        ((dataOf event).get "quantifier_instance_event", event)) reference = .ok activity) ↔
      ∀ assertion, assertionFor events reference.str = some assertion →
        Shown events assertion := by
  rw [Rainfall.bisimulationActivity, lastUnder_map]
  cases found : lastNaming "assertion" (named "bisim.clause.assert" events) reference.str with
  | none => simp [assertionFor, found]
  | some assertion =>
    have member : assertion ∈ events :=
      mem_of_mem_filter (mem_reverse.mp (mem_of_find?_eq_some found))
    obtain ⟨index, holds⟩ := accepted.of_mem member
    have each : ∀ event ∈ acceptedFor events
        ("fine.bisim." ++ ((dataOf assertion).get "role").str), event ∈ events :=
      fun event inside => mem_of_mem_filter inside
    have instances : (∃ shown, (acceptedFor events
          ("fine.bisim." ++ ((dataOf assertion).get "role").str)).mapM
        (Rainfall.acceptedInstance (Replay.of events).terms
          ((instanceClauses events).map fun event =>
            ((dataOf event).get "quantifier_instance_event", event))) = .ok shown) ↔
        ∀ event ∈ acceptedFor events ("fine.bisim." ++ ((dataOf assertion).get "role").str),
          ((dataOf event).get "instance").isIn (keys (declared "term.declare" events)) = true := by
      rw [exists_mapM_ok_iff, accepted.declared_terms]
      exact forall₂_congr fun event inside => accepted.acceptedInstance (each event inside)
    simp only [assertionFor, found, Option.some.injEq, forall_eq', Json.at_bind_ok, require_bind_ok]
    simp only [bind_ok_iff, Json.at_ok]
    constructor
    · rintro ⟨_, _, _, role, shown, run, _⟩
      exact ⟨role, instances.mp ⟨shown, run⟩⟩
    · intro shows_
      obtain ⟨shown, run⟩ := instances.mpr shows_.instances
      exact ⟨_, holds.has.1, Json.has_of_isText shows_.role, shows_.role, shown, run,
        _, ⟨holds.has.2.1, rfl⟩, rfl⟩

/-- The one snapshot of an accepted replay. -/
theorem ReplayAccepted.catalog (accepted : ReplayAccepted digest source events) :
    ∃ document snapshot, catalog events = .ok ⟨document, snapshot,
        (Replay.of events).sourceNodes, (Replay.of events).terms,
        named "source.term.evidence" events⟩ ∧
      ∃ replay, Replay.SnapshotAccepted digest source replay snapshot := by
  have documents := accepted.finished.document
  have snapshots := accepted.finished.snapshot
  obtain ⟨document, documentFound⟩ : ∃ event, firstNamed "source.document.declare" events =
      .ok event := by
    rw [firstNamed, accepted.named_eq (show Operation.document.name? = _ from rfl)]
    cases all : ofKind .document events with
    | nil => simp [Replay.of, dataOfKind, all] at documents
    | cons event _ => exact ⟨event, rfl⟩
  obtain ⟨snapshot, snapshotFound, member⟩ : ∃ event,
      firstNamed "source.snapshot.declare" events = .ok event ∧
        event ∈ ofKind .snapshot events := by
    rw [firstNamed, accepted.named_eq (show Operation.snapshot.name? = _ from rfl)]
    cases all : ofKind .snapshot events with
    | nil => simp [Replay.of, dataOfKind, all] at snapshots
    | cons event _ => exact ⟨event, rfl, mem_cons_self⟩
  obtain ⟨index, event, _, same, kind, holds⟩ := accepted.of_data (mem_map_of_mem member)
  have checked := holds.data
  rw [Replay.DataAccepted, kind, same] at checked
  refine ⟨document.get "data", snapshot.get "data", ?_, _, checked⟩
  rw [Rainfall.catalog, bind_ok_iff]
  refine ⟨document, documentFound, bind_ok_iff.mpr ⟨snapshot, snapshotFound, ?_⟩⟩
  rw [← accepted.declared_nodes, ← accepted.declared_terms]
  rfl

/-- Replays that can be projected. -/
structure Projectable (events : List Json) : Prop where
  /-- No edge is internal to the solver. -/
  sourced : ∀ event ∈ named "source.term.evidence" events,
    (dataOf event).get "correspondence" ≠ .text "internal_z3"
  /-- Assertions of a bisimulation name what they assert, by a value that may be a key. -/
  asserted : ∀ event ∈ named "bisim.clause.assert" events,
    (dataOf event).has "assertion" = true ∧ ((dataOf event).get "assertion").isHashable = true
  /-- The last assertion of a term with evidence says enough to show its activity. -/
  active : ∀ event ∈ named "source.term.evidence" events, ∀ assertion,
    assertionFor events ((dataOf event).get "term").str = some assertion → Shown events assertion

/-- An edge to a node is placed; activity may be missing. -/
theorem ReplayAccepted.annotate (accepted : ReplayAccepted digest source events) (document : Json)
    (displayed : Bytes) (edits : List Edit) {snapshot : Json}
    (known : Replay.SnapshotAccepted digest source replay snapshot)
    (member : event ∈ named "source.term.evidence" events) :
    (∃ result, annotate events ⟨document, snapshot, (Replay.of events).sourceNodes,
        (Replay.of events).terms, named "source.term.evidence" events⟩
      ((named "bisim.clause.assert" events).map fun event =>
        ((dataOf event).get "assertion", event))
      ((instanceClauses events).map fun event =>
        ((dataOf event).get "quantifier_instance_event", event)) displayed edits event =
          .ok result) ↔
      (dataOf event).get "correspondence" ≠ .text "internal_z3" ∧
        ∀ assertion, assertionFor events ((dataOf event).get "term").str = some assertion →
          Shown events assertion := by
  obtain ⟨index, holds⟩ := accepted.of_mem (mem_of_mem_filter member)
  obtain ⟨hasData, hasId, hasWithin⟩ := holds.has
  have edge : (Replay.of events).EdgeAccepted (dataOf event) := by
    apply accepted.finished.edges
    rw [← accepted.evidence]
    exact mem_map_of_mem member
  rw [← accepted.bisimulationActivity]
  simp only [Rainfall.annotate, Json.at_bind_ok, subscript_bind_ok]
  simp only [bind_ok_iff]
  constructor
  · rintro ⟨_, _, _, there, _, _, _, _, _, _, _, _, _, _, _, _, _, activity, run, _⟩
    refine ⟨fun internal => ?_, activity, run⟩
    have null := edge.internal internal
    have isText : ((dataOf event).get "source").isText = true := (Json.isIn_iff.mp there).1
    rw [Json.eq_text_of_isText isText] at null
    cases null
  · rintro ⟨sourced, activity, run⟩
    have there := edge.source sourced
    obtain ⟨_, node⟩ := accepted.node (Json.isIn_iff.mp there).2
    obtain ⟨_, term⟩ := accepted.term (Json.isIn_iff.mp edge.term).2
    exact ⟨_, hasData, Json.has_of_isText (Json.isIn_iff.mp there).1, there,
      Json.has_of_isText (Json.isIn_iff.mp edge.term).1, edge.term,
      Json.has_of_isObject node.span, Json.has_of_isObject node.start,
      Json.has_of_isInt node.startInt, Json.has_of_isObject node.stop,
      Json.has_of_isInt node.stopInt, Json.has_of_isText known.text,
      Json.has_of_isText (Json.isIn_iff.mp edge.correspondence).1, hasId, hasWithin,
      Json.has_of_isText (Json.isText_of_isName node.kind),
      Json.has_of_isText (Json.isText_of_isName term.rendering), activity, run, rfl⟩

/-- Span of the source node of an evidence event. -/
def edgeSpan (sourceNodes : List (String × Json)) (event : Json) : Json :=
  (find sourceNodes ((dataOf event).get "source")).get "span"

/-- An annotation reports its edge at the place of its source node. -/
theorem annotation_claim {objects : Catalog} {assertions lemmas : List (Json × Json)}
    {result : Annotation}
    (run : annotate events objects assertions lemmas displayed edits event = .ok result) :
    (result.claim.eventId = event.get "event_id" ∧
      result.claim.source = (dataOf event).get "source") ∧
    ((dataOf event).get "source").isIn (keys objects.sourceNodes) = true ∧
    (result.status, result.displaySpan) = place displayed edits
      (offset (edgeSpan objects.sourceNodes event) "begin").integer
      (offset (edgeSpan objects.sourceNodes event) "end").integer := by
  simp only [Rainfall.annotate, Json.at_bind_ok, subscript_bind_ok] at run
  obtain ⟨_, _, there, _, _, _, _, _, _, _, _, _, _, _, _, _, run⟩ := run
  obtain ⟨activity, _, same⟩ := bind_ok_iff.mp run
  rw [← pure_ok_iff.mp same]
  exact ⟨⟨rfl, rfl⟩, there, rfl⟩

def sourcedEvidence (events : List Json) : List Json :=
  (named "source.term.evidence" events).filter fun event => !((dataOf event).get "source").isNull

/-- One annotation for each evidence event with a source node, in order. -/
def OnePerEdge (events : List Json) (projection : Projection) : Prop :=
  Forall₂ (fun (result : Annotation) event => result.claim.eventId = event.get "event_id" ∧
    result.claim.source = (dataOf event).get "source") projection.annotations
    (sourcedEvidence events)

theorem project_annotations {projection : Projection}
    (run : project digest source events edits = .ok (projection, displayed)) :
    ∃ objects assertions lemmas, catalog events = .ok objects ∧
      Forall₂ (fun event result => annotate events objects assertions lemmas
        (applyEdits source edits) edits event = .ok result) objects.evidence
          projection.annotations := by
  rw [project, bind_ok_iff] at run
  obtain ⟨_, _, run⟩ := run
  obtain ⟨objects, found, run⟩ := bind_ok_iff.mp run
  simp only [Json.at_bind_ok] at run
  obtain ⟨_, _, _, run⟩ := run
  obtain ⟨assertions, _, run⟩ := bind_ok_iff.mp run
  obtain ⟨lemmas, _, run⟩ := bind_ok_iff.mp run
  obtain ⟨annotations, made, run⟩ := bind_ok_iff.mp run
  rw [Json.at_bind_ok] at run
  cases pure_ok_iff.mp run.2
  exact ⟨objects, assertions, lemmas, found, mapM_ok_iff.mp made⟩

/-- What a projection needs and gives. -/
theorem ReplayAccepted.project (accepted : ReplayAccepted digest source events)
    (edits : List Edit) :
    (∃ projection displayed, project digest source events edits = .ok (projection, displayed) ∧
      OnePerEdge events projection) ↔ Projectable events := by
  obtain ⟨counts, validated⟩ := validate_ok_iff.mpr accepted
  obtain ⟨document, snapshot, objects, replay, known⟩ := accepted.catalog
  simp only [Rainfall.project, validated, objects, ok_bind, Json.at_bind_ok]
  simp only [bind_ok_iff, keyed_ok, Json.at_ok, pure_ok_iff]
  constructor
  · rintro ⟨_, _, ⟨_, _, _, _, ⟨asserted, rfl⟩, _, ⟨_, rfl⟩, results, run, _⟩, _⟩
    have each := exists_mapM_ok_iff.mp ⟨results, run⟩
    have edges event member := (accepted.annotate _ _ _ known member).mp (each event member)
    exact ⟨fun event member => (edges event member).1, fun event member => (asserted event member).2,
      fun event member => (edges event member).2⟩
  · intro projectable
    obtain ⟨results, run⟩ := exists_mapM_ok_iff.mpr fun event member =>
      (accepted.annotate document (applyEdits source edits) edits known member).mpr
        ⟨projectable.sourced event member, projectable.active event member⟩
    have lemmas := keyed_ok.mp accepted.keyed_lemmas
    have asserted : ∀ event ∈ named "bisim.clause.assert" events, event.has "data" = true ∧
        (dataOf event).has "assertion" = true ∧
        ((dataOf event).get "assertion").isHashable = true := by
      intro event member
      obtain ⟨_, holds⟩ := accepted.of_mem (mem_of_mem_filter member)
      exact ⟨holds.has.1, projectable.asserted event member⟩
    have hasDocument := Json.has_of_isText (Json.isIn_iff.mp known.document).1
    have hasRevision := Json.has_of_isInt (Bool.and_eq_true_iff.mp known.revision).1
    have hasId := Json.has_of_isText known.text
    refine ⟨_, _, ⟨Json.has_of_isObject known.object, hasDocument, hasRevision, _,
      ⟨asserted, rfl⟩, _, lemmas, results, run, _, ⟨hasId, rfl⟩, rfl⟩, ?_⟩
    have all : sourcedEvidence events = named "source.term.evidence" events := by
      apply filter_eq_self.mpr
      intro event member
      have edge : (Replay.of events).EdgeAccepted (dataOf event) := by
        apply accepted.finished.edges
        rw [← accepted.evidence]
        exact mem_map_of_mem member
      have there := edge.source (projectable.sourced event member)
      rw [Json.eq_text_of_isText (Json.isIn_iff.mp there).1]
      rfl
    rw [OnePerEdge, all]
    have made := mapM_ok_iff.mp run
    exact (made.imp fun _ _ placed => (annotation_claim placed).1).flip

/-- An accepted replay is projected through every accepted transaction, with one annotation for each
evidence event that has a source node, exactly when it is `Projectable`. -/
theorem project_total_iff {counts : Counts} (value : Json) {edits : List Edit}
    (accepted : validate digest source events = .ok counts)
    (_loaded : loadEdits value source.length = .ok edits) :
    (∃ projection displayed, project digest source events edits = .ok (projection, displayed) ∧
      OnePerEdge events projection) ↔ Projectable events :=
  (validate_ok_iff.mp ⟨counts, accepted⟩).project edits

/-- A hash that tells sources of few lengths apart. -/
def Digest.sample : Digest where
  hex bytes := String.ofList
    (List.replicate 64 ("0123456789abcdef".toList.getD (bytes.length % 16) '0'))
  length_hex bytes := by simp
  hex_digits bytes := by
    have below : bytes.length % 16 < 16 := Nat.mod_lt _ (by decide)
    have each : ∀ place < 16, "0123456789abcdef".toList.contains
        ("0123456789abcdef".toList.getD place '0') = true := by decide
    rw [String.toList_ofList, all_eq_true]
    intro digit member
    rw [(mem_replicate.mp member).2]
    exact each _ below

def sampleEvent (run : String) (sequence : Nat) (operation : String)
    (data : List (String × Json)) : Json :=
  .object [("schema", .text "fine.rainfall.v2"), ("sequence", .int sequence),
    ("event_id", .text ("event:" ++ toString sequence)), ("run", .text run),
    ("recorder", .text "recorder"), ("manager", .text "manager"), ("within", .array []),
    ("operation", .text operation), ("data", .object data)]

def sampleIdentity (document : String) (revision : Int) (source : Bytes) : Json :=
  .object [("document", .text document), ("revision", .int revision),
    ("byte_length", .int source.length),
    ("exact_source_hash", .text (Digest.sample.identity source))]

def samplePosition (offset : Int) : Json := .object [("offset", .int offset)]

def sampleTerm (run : String) : List (String × Json) :=
  [("id", .text "term:0"),
    ("identity", .object [("run", .text run), ("recorder", .text "recorder"),
      ("manager", .text "manager"), ("handle", .int 0)]),
    ("representation", .text "fine.generated-term.v1"), ("origin", .text "source"),
    ("text", .text "true"),
    ("rendering_hash", .text (Digest.sample.identity (Utf8.encode "true"))),
    ("z3_text_diagnostic", .text "true"), ("exact_reify_validation", .text "pending"),
    ("sort_bindings", .array []), ("declaration_bindings", .array [])]

/-- A replay of one node, one term and one edge. -/
def sampleReplay (run document : String) (revision : Int) (source : Bytes) (start stop : Int)
    (edge : List (String × Json)) : List Json :=
  [sampleEvent run 0 "source.document.declare"
      [("id", .text document), ("display_name", .text "source.fine")],
    sampleEvent run 1 "source.snapshot.declare"
      [("id", .text "snapshot:0"), ("identity", sampleIdentity document revision source)],
    sampleEvent run 2 "source.node.declare"
      [("id", .text "node:0"), ("snapshot", .text "snapshot:0"), ("parse_local_node_id", .int 0),
        ("syntax_kind", .text "expr"),
        ("span", .object [("begin", samplePosition start), ("end", samplePosition stop)])],
    sampleEvent run 3 "term.declare" (sampleTerm run),
    sampleEvent run 4 "term.lift.validate"
      [("term", .text "term:0"), ("parse_reify_exact_identity", .bool true),
        ("rendering_hash", .text (Digest.sample.identity (Utf8.encode "true")))],
    sampleEvent run 5 "source.term.evidence" (("term", .text "term:0") :: edge),
    sampleEvent run 6 "check.run.close" []]

def sampleEdge : List (String × Json) :=
  [("correspondence", .text "exact"), ("source", .text "node:0"), ("snapshot", .text "snapshot:0")]

def sampleSource : Bytes := [120, 61, 49]

/-- A small replay is projected. -/
theorem project_sample :
    validate Digest.sample sampleSource
        (sampleReplay "run:0" "document:0" 0 sampleSource 0 3 sampleEdge) = .ok ⟨7, 1, 1, 1⟩ ∧
      ((∃ projection displayed, project Digest.sample sampleSource
          (sampleReplay "run:0" "document:0" 0 sampleSource 0 3 sampleEdge) [] =
            .ok (projection, displayed) ∧
          OnePerEdge (sampleReplay "run:0" "document:0" 0 sampleSource 0 3 sampleEdge)
            projection) ↔
        Projectable (sampleReplay "run:0" "document:0" 0 sampleSource 0 3 sampleEdge)) :=
  ⟨rfl, project_total_iff (.array []) rfl rfl⟩

/-- A replay with an edge internal to the solver is accepted, but not projected. -/
theorem project_internal_edge :
    validate Digest.sample sampleSource (sampleReplay "run:0" "document:0" 0 sampleSource 0 3
        [("correspondence", .text "internal_z3"), ("source", .null)]) = .ok ⟨7, 1, 1, 1⟩ ∧
      project Digest.sample sampleSource (sampleReplay "run:0" "document:0" 0 sampleSource 0 3
        [("correspondence", .text "internal_z3"), ("source", .null)]) [] = .error "KeyError" :=
  ⟨rfl, rfl⟩

end Fine.Rainfall
