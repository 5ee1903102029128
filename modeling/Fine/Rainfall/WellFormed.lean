import Fine.Rainfall.Projected
import Mathlib

/-!
# Well-formed replays

What a replay is to be, said of its list of events without the validator's state. The validator
accepts exactly these. It asks only the witness of a match run to close holes, and only those
declared before it.
-/

namespace Fine.Rainfall

open List

theorem nodup_filter_map_iff {α β : Type} {chosen : α → Bool} {value : α → β} {events : List α} :
    ((events.filter chosen).map value).Nodup ↔ ∀ index event, events[index]? = some event →
      chosen event = true → value event ∉ ((events.take index).filter chosen).map value := by
  rw [List.Nodup, pairwise_map, pairwise_filter, pairwise_iff_getElem]
  simp only [mem_map, mem_filter, not_exists, not_and, and_imp]
  constructor
  · intro apart index event found here earlier member there same
    obtain ⟨inside, rfl⟩ := List.getElem?_eq_some_iff.mp found
    obtain ⟨place, before, rfl⟩ := mem_take_iff_getElem.mp member
    exact apart place index (by omega) inside (by omega) there here same
  · intro fresh first second inside within before here there same
    exact fresh second _ (List.getElem?_eq_getElem within) there _
      (mem_take_iff_getElem.mpr ⟨first, by omega, rfl⟩) here same

/-- Identities of what the events of a kind declare. -/
def idsOf (kind : Operation) (events : List Json) : List String :=
  (dataOfKind kind events).map fun data => (data.get "id").str

/-- The reference names something of the declared kind. -/
def Names (kind : Operation) (events : List Json) (reference : Json) : Prop :=
  ∃ data ∈ dataOfKind kind events, reference = .text (data.get "id").str

/-! ## What the fields are to be -/

/-- The value is of the run of the envelope. -/
structure SameRun (envelope : Envelope) (value : Json) : Prop where
  run : value.get "run" = .text envelope.run
  recorder : value.get "recorder" = .text envelope.recorder
  manager : value.get "manager" = .text envelope.manager

theorem matches_iff {envelope : Envelope} {value : Json} :
    envelope.matches_ value = true ↔ SameRun envelope value := by
  simp only [Envelope.matches_, Bool.and_eq_true, Json.isString_iff]
  constructor
  · rintro ⟨⟨run, recorder⟩, manager⟩
    exact ⟨run, recorder, manager⟩
  · intro same
    exact ⟨⟨same.run, same.recorder⟩, same.manager⟩

/-- Bindings have different names. -/
structure Aliased (bindings : List Json) : Prop where
  object : ∀ binding ∈ bindings, binding.isObject = true
  named : ∀ binding ∈ bindings, (binding.get "name").isName = true
  distinct : bindings.Pairwise fun first second => first.get "name" ≠ second.get "name"

/-- The check of aliases decides that they are in order. -/
theorem aliases_iff {bindings : Json} : Replay.aliases bindings = true ↔ Aliased bindings.items := by
  simp only [Replay.aliases, Bool.and_eq_true, all_eq_true, decide_eq_true_eq]
  have same (named : ∀ binding ∈ bindings.items, (binding.get "name").isName = true) :
      (bindings.items.map fun item => (item.get "name").str).Nodup ↔
        bindings.items.Pairwise fun first second => first.get "name" ≠ second.get "name" := by
    rw [List.Nodup, pairwise_map]
    refine List.Pairwise.iff_of_mem fun {first second} here there => not_congr ?_
    have one := Json.eq_text_of_isText (Json.isText_of_isName (named first here))
    have two := Json.eq_text_of_isText (Json.isText_of_isName (named second there))
    rw [one, two]
    simp [Json.str]
  constructor
  · rintro ⟨⟨object, named⟩, distinct⟩
    exact ⟨object, named, (same named).mp distinct⟩
  · intro formed
    exact ⟨⟨formed.object, formed.named⟩, (same formed.named).mpr formed.distinct⟩

/-- The binding of a sort says what the sort is. -/
structure SortBound (binding : Json) : Prop where
  text : (binding.get "z3_text").isText = true
  kind : (binding.get "sort_kind").isInt = true
  ast : (binding.get "ast_id_at_observation").isInt = true

theorem sortBinding_iff {binding : Json} :
    Replay.sortBinding binding = true ↔ SortBound binding := by
  simp only [Replay.sortBinding, Bool.and_eq_true]
  constructor
  · rintro ⟨⟨text, kind⟩, ast⟩
    exact ⟨text, kind, ast⟩
  · intro bound
    exact ⟨⟨bound.text, bound.kind⟩, bound.ast⟩

/-- The reference is the name of one of the bindings. -/
def Alias (bindings : List Json) (reference : Json) : Prop :=
  ∃ binding ∈ bindings, reference = .text (binding.get "name").str

/-- The domain and range of a declaration binding are bound sorts. -/
structure DeclarationBound (sorts : List Json) (binding : Json) : Prop where
  symbol : (binding.get "z3_symbol").isText = true
  text : (binding.get "z3_declaration_text").isText = true
  kind : (binding.get "decl_kind").isInt = true
  parameters : (binding.get "parameters").isArray = true
  texts : ∀ parameter ∈ (binding.get "parameters").items, parameter.isText = true
  ast : (binding.get "ast_id_at_observation").isInt = true
  array : (binding.get "domain").isArray = true
  domain : ∀ sort ∈ (binding.get "domain").items, Alias sorts sort
  range : Alias sorts (binding.get "range")

theorem isIn_iff_alias {bindings : List Json} {reference : Json} :
    reference.isIn (bindings.map fun binding => (binding.get "name").str) = true ↔
      Alias bindings reference := by
  rw [Json.isIn_iff, mem_map]
  constructor
  · rintro ⟨text, binding, member, named⟩
    exact ⟨binding, member, named ▸ Json.eq_text_of_isText text⟩
  · rintro ⟨binding, member, rfl⟩
    exact ⟨rfl, binding, member, rfl⟩

/-- The check of a binding decides that it is closed. -/
theorem declarationBinding_iff {data binding : Json} :
    Replay.declarationBinding (Replay.sortNames data) binding = true ↔
      DeclarationBound (data.get "sort_bindings").items binding := by
  simp only [Replay.declarationBinding, Replay.sortNames, Bool.and_eq_true, all_eq_true,
    isIn_iff_alias, and_assoc]
  constructor
  · rintro ⟨symbol, text, kind, parameters, texts, ast, array, domain, range⟩
    exact ⟨symbol, text, kind, parameters, texts, ast, array, domain, range⟩
  · intro bound
    exact ⟨bound.symbol, bound.text, bound.kind, bound.parameters, bound.texts, bound.ast,
      bound.array, bound.domain, bound.range⟩

/-- Comparing neighbours orders all ranges. -/
theorem rangesOrdered_iff {ranges : List (Int × Int)}
    (proper : ∀ range ∈ ranges, range.1 ≤ range.2) :
    Replay.rangesOrdered ranges = true ↔
      ranges.Pairwise fun first second => first.2 ≤ second.1 := by
  induction ranges with
  | nil => simp [Replay.rangesOrdered]
  | cons first ranges ih =>
    cases ranges with
    | nil => simp [Replay.rangesOrdered]
    | cons second rest =>
      have here := proper first (by simp)
      have there := proper second (by simp)
      rw [Replay.rangesOrdered, Bool.and_eq_true, Bool.and_eq_true, decide_eq_true_eq,
        decide_eq_true_eq, ih fun range member => proper range (mem_cons_of_mem _ member),
        pairwise_cons (a := first)]
      constructor
      · rintro ⟨⟨-, next⟩, later⟩
        refine ⟨fun range member => ?_, later⟩
        rcases mem_cons.mp member with rfl | behind
        · exact next
        · have beyond := (pairwise_cons.mp later).1 range behind
          omega
      · rintro ⟨before, later⟩
        have next := before second mem_cons_self
        exact ⟨⟨by omega, next⟩, later⟩

theorem isInstance_iff {operation : String} {data : Json} :
    Replay.isInstance operation data = true ↔
      operation = "z3.clause.infer" ∧ data.get "proof_hint_head" = .text "inst" := by
  rw [Replay.isInstance, Bool.and_eq_true, beq_iff_eq, Json.isString_iff]

/-- The event opens the synthesis of a match. -/
def OpensMatch (event : Json) : Prop :=
  operationOf event = "synth.run.open" ∧ (dataOf event).has "matched_parameter" = true

theorem opens_iff {event : Json} : opens event = true ↔ OpensMatch event := by
  rw [opens, Replay.opensMatch, Bool.and_eq_true, beq_iff_eq, OpensMatch]

/-- The event ends the run: a close, of a proof an unverified one. -/
def Ends (event : Json) : Prop :=
  operationOf event ∈ ["check.run.close", "synth.run.close", "bisim.run.close",
    "predicate-check.run.close", "predicate-induction.run.close"] ∨
  operationOf event = "proof.run.close" ∧ (dataOf event).get "status" ≠ .text "verified"

theorem ends_iff {event : Json} : ends event = true ↔ Ends event := by
  rw [ends, Replay.isTerminal, Bool.or_eq_true, contains_iff_mem, Bool.and_eq_true,
    beq_iff_eq, Bool.not_eq_true', ← Bool.not_eq_true, Json.isString_iff, Ends]

/-! ## What the events are to be -/

/-- A document has an identity and a name. -/
structure DocumentFormed (data : Json) : Prop where
  text : (data.get "id").isText = true
  shown : (data.get "display_name").isText = true

/-- A snapshot of an earlier document, with length and hash. -/
structure SnapshotFormed (digest : Digest) (source : Bytes) (earlier : List Json) (data : Json) :
    Prop where
  text : (data.get "id").isText = true
  object : (data.get "identity").isObject = true
  document : Names .document earlier ((data.get "identity").get "document")
  revision : ((data.get "identity").get "revision").isNatural = true
  byteLength : ((data.get "identity").get "byte_length").isNumber source.length = true
  hash : (data.get "identity").get "exact_source_hash" = .text (digest.identity source)

/-- A source node of an earlier snapshot, inside the source. -/
structure NodeFormed (source : Bytes) (earlier : List Json) (data : Json) : Prop where
  text : (data.get "id").isText = true
  snapshot : Names .snapshot earlier (data.get "snapshot")
  natural : (data.get "parse_local_node_id").isNatural = true
  span : (data.get "span").isObject = true
  start : ((data.get "span").get "begin").isObject = true
  stop : ((data.get "span").get "end").isObject = true
  kind : (data.get "syntax_kind").isName = true
  startInt : (offset (data.get "span") "begin").isInt = true
  stopInt : (offset (data.get "span") "end").isInt = true
  inside : 0 ≤ (offset (data.get "span") "begin").integer ∧
    (offset (data.get "span") "begin").integer ≤ (offset (data.get "span") "end").integer ∧
    (offset (data.get "span") "end").integer ≤ source.length

/-- The hash of the text, and distinct aliases that close the bindings. -/
structure TermFormed (digest : Digest) (envelope : Envelope) (data : Json) : Prop where
  text : (data.get "id").isText = true
  object : (data.get "identity").isObject = true
  sameRun : SameRun envelope (data.get "identity")
  natural : ((data.get "identity").get "handle").isNatural = true
  representation : data.get "representation" = .text "fine.generated-term.v1"
  origin : (data.get "origin").isName = true
  rendering : (data.get "text").isName = true
  hash : data.get "rendering_hash" =
    .text (digest.identity (Utf8.encode (data.get "text").str))
  diagnostic : (data.get "z3_text_diagnostic").isText = true
  pending : data.get "exact_reify_validation" = .text "pending"
  sorts : (data.get "sort_bindings").isArray = true
  declarations : (data.get "declaration_bindings").isArray = true
  sortAliases : Aliased (data.get "sort_bindings").items
  sortBindings : ∀ binding ∈ (data.get "sort_bindings").items, SortBound binding
  declarationAliases : Aliased (data.get "declaration_bindings").items
  declarationBindings : ∀ binding ∈ (data.get "declaration_bindings").items,
    DeclarationBound (data.get "sort_bindings").items binding

/-- An exact validation, with the hash of the earlier term. -/
structure LiftFormed (earlier : List Json) (data : Json) : Prop where
  exact : (data.get "parse_reify_exact_identity").isTrue = true
  term : ∃ term ∈ dataOfKind .term earlier, data.get "term" = .text (term.get "id").str ∧
    data.get "rendering_hash" = .text (term.get "rendering_hash").str

/-- A hole at an earlier node, over earlier terms. -/
structure HoleFormed (earlier : List Json) (data : Json) : Prop where
  text : (data.get "id").isText = true
  snapshot : Names .snapshot earlier (data.get "snapshot")
  source : ∃ node ∈ dataOfKind .node earlier, data.get "source" = .text (node.get "id").str ∧
    data.get "snapshot" = .text (node.get "snapshot").str ∧
    node.get "syntax_kind" = .text "expr.hole"
  name : (data.get "name").isName = true
  type : data.get "expected_type" = .text "Int"
  grammar : data.get "grammar" = .text "fine.qf-lia-int.v1"
  inputs : (data.get "grammar_inputs").isArray = true
  terms : ∀ item ∈ (data.get "grammar_inputs").items, Names .term earlier item

/-- The span of a node does not run backwards. -/
theorem NodeFormed.ordered {source : Bytes} {earlier : List Json} {data : Json}
    (formed : NodeFormed source earlier data) {start stop : Int}
    (isStart : (offset (data.get "span") "begin").isNumber start = true)
    (isStop : (offset (data.get "span") "end").isNumber stop = true) : start ≤ stop := by
  rw [Json.isNumber_unique isStart (Json.isNumber_of_isInt formed.startInt),
    Json.isNumber_unique isStop (Json.isNumber_of_isInt formed.stopInt)]
  exact formed.inside.2.1

/-- A verified arm closes an earlier hole. -/
structure ArmFormed (earlier : List Json) (data : Json) : Prop where
  hole : Names .hole earlier (data.get "hole")
  name : (data.get "constructor").isName = true
  body : (data.get "body").isName = true
  term : Names .term earlier (data.get "semantic_term")
  verified : data.get "status" = .text "verified"

/-- A replacement is the body of the arm that closed an earlier hole, at its span. -/
structure ReplacementFormed (earlier : List Json) (replacement : Json) : Prop where
  object : replacement.isObject = true
  fields : replacement.hasKeys ["hole", "from", "to", "insert"] = true
  start : (replacement.get "from").isInt = true
  stop : (replacement.get "to").isInt = true
  insert : (replacement.get "insert").isName = true
  hole : ∃ hole ∈ dataOfKind .hole earlier, replacement.get "hole" = .text (hole.get "id").str ∧
    ∃ node ∈ dataOfKind .node earlier, hole.get "source" = .text (node.get "id").str ∧
      (offset (node.get "span") "begin").isNumber (replacement.get "from").integer = true ∧
      (offset (node.get "span") "end").isNumber (replacement.get "to").integer = true
  arm : ∃ arm ∈ dataOfKind .arm earlier, replacement.get "hole" = .text (arm.get "hole").str ∧
    arm.get "body" = .text (replacement.get "insert").str

def closedHoles (events : List Json) : List String :=
  (dataOfKind .arm events).map fun data => (data.get "hole").str

/-- The witness replaces exactly the earlier holes, in order and apart, all closed. -/
structure WitnessFormed (earlier : List Json) (data : Json) : Prop where
  opened : ∃ opening ∈ earlier, OpensMatch opening
  term : Names .term earlier (data.get "semantic_term")
  verified : (data.get "verified").isTrue = true
  array : (data.get "replacements").isArray = true
  count : (data.get "open_arms").isNumber (data.get "replacements").items.length = true
  each : ∀ replacement ∈ (data.get "replacements").items, ReplacementFormed earlier replacement
  ordered : (data.get "replacements").items.Pairwise fun first second =>
    (first.get "to").integer ≤ (second.get "from").integer
  all : (Replay.replacedHoles (data.get "replacements").items).Perm (idsOf .hole earlier)
  closed : (closedHoles earlier).Perm (idsOf .hole earlier)

/-- The clause names the earlier event that accepted the instance. -/
structure InstanceFormed (earlier : List Json) (data : Json) : Prop where
  event : ∃ accepted ∈ earlier,
    data.get "quantifier_instance_event" = .text (idOf accepted) ∧
    (accepted.get "operation" = .text "z3.mbqi-instance" ∨
      accepted.get "operation" = .text "z3.quantifier-instance") ∧
    (dataOf accepted).get "quantifier" = .text (data.get "quantifier").str ∧
    (dataOf accepted).get "instance" = .text (data.get "instance").str
  quantifier : Names .term earlier (data.get "quantifier")
  instance_ : Names .term earlier (data.get "instance")
  bindings : (data.get "ground_bindings").isArray = true
  terms : ∀ binding ∈ (data.get "ground_bindings").items, Names .term earlier binding
  relation : data.get "relation" = .text "accepted-instance-became-admitted-clause"

/-- A clause is over earlier terms. -/
structure ClauseFormed (earlier : List Json) (operation : String) (data : Json) : Prop where
  hint : Names .term earlier (data.get "proof_hint")
  array : (data.get "literals").isArray = true
  literals : ∀ literal ∈ (data.get "literals").items, Names .term earlier literal
  count : (data.get "literal_count").isNumber (data.get "literals").items.length = true
  dependencies : (data.get "dependency_indices").isArray = true
  indices : ∀ index ∈ (data.get "dependency_indices").items, index.isNatural = true
  instances : operation = "z3.clause.infer" → data.get "proof_hint_head" = .text "inst" →
    InstanceFormed earlier data

def DataFormed (digest : Digest) (source : Bytes) (envelope : Envelope) (earlier : List Json)
    (operation : String) (data : Json) : Prop :=
  match Operation.of operation with
  | .document => DocumentFormed data
  | .snapshot => SnapshotFormed digest source earlier data
  | .node => NodeFormed source earlier data
  | .term => TermFormed digest envelope data
  | .lift => LiftFormed earlier data
  | .hole => HoleFormed earlier data
  | .arm => ArmFormed earlier data
  | .witness => WitnessFormed earlier data
  | .evidence => True
  | .clause => ClauseFormed earlier operation data
  | .other => True

/-- Of the run, with its place, and its data in order. -/
structure EventFormed (digest : Digest) (source : Bytes) (envelope : Envelope)
    (earlier : List Json) (sequence : Nat) (event : Json) : Prop where
  schema : event.get "schema" = .text "fine.rainfall.v2"
  number : (event.get "sequence").isNumber sequence = true
  sameRun : SameRun envelope event
  text : (event.get "event_id").isText = true
  array : (event.get "within").isArray = true
  scopes : ∀ scope ∈ (event.get "within").items, scope.isName = true
  operation : (event.get "operation").isText = true
  object : (event.get "data").isObject = true
  data : DataFormed digest source envelope earlier (operationOf event) (dataOf event)

/-- An edge joins a declared term to a node of its snapshot, or to the solver. -/
structure EdgeFormed (events : List Json) (edge : Json) : Prop where
  correspondence : (edge.get "correspondence").isIn
    ["exact", "desugared", "generated", "internal_z3"] = true
  term : Names .term events (edge.get "term")
  internal : edge.get "correspondence" = .text "internal_z3" → (edge.get "source").isNull = true
  source : edge.get "correspondence" ≠ .text "internal_z3" → ∃ node ∈ dataOfKind .node events,
    edge.get "source" = .text (node.get "id").str ∧
    edge.get "snapshot" = .text (node.get "snapshot").str

/-- A well-formed replay of a source. -/
structure WellFormed (digest : Digest) (source : Bytes) (events : List Json) : Prop where
  run : ((events.headD .null).get "run").isName = true
  recorder : ((events.headD .null).get "recorder").isName = true
  manager : ((events.headD .null).get "manager").isName = true
  each : ∀ index event, events[index]? = some event →
    EventFormed digest source (envelopeOf events) (events.take index) index event
  eventIds : (events.map idOf).Nodup
  /-- There is one document and one snapshot. -/
  document : (dataOfKind .document events).length = 1
  snapshot : (dataOfKind .snapshot events).length = 1
  nodes : (idsOf .node events).Nodup
  parseNodes : ((dataOfKind .node events).map fun data =>
    (data.get "parse_local_node_id").integer).Nodup
  terms : (idsOf .term events).Nodup
  handles : ((dataOfKind .term events).map fun data =>
    ((data.get "identity").get "handle").integer).Nodup
  holes : (idsOf .hole events).Nodup
  arms : (closedHoles events).Nodup
  /-- Every term is validated exactly once. -/
  validated : ((dataOfKind .lift events).map fun data => (data.get "term").str).Perm
    (idsOf .term events)
  /-- A match run has one match witness, and no other run has one. -/
  witness : (∃ opening ∈ events, OpensMatch opening) → (ofKind .witness events).length = 1
  noWitness : (∀ event ∈ events, ¬ OpensMatch event) → ofKind .witness events = []
  /-- The last event ends the run, and no other does. -/
  closes : ∀ index event, events[index]? = some event →
    (Ends event ↔ index + 1 = events.length)
  edges : ∀ edge ∈ dataOfKind .evidence events, EdgeFormed events edge

/-- A dictionary of values under a text of each. -/
def entriesOf (key : Json → String) (values : List Json) : List (String × Json) :=
  values.map fun value => (key value, value)

variable {kind : Operation} {sequence : Nat}

section

variable {key : Json → String} {values : List Json} {reference : Json}

@[simp] theorem keys_entriesOf : keys (entriesOf key values) = values.map key := by
  simp [keys, entriesOf]

theorem find_entriesOf (known : reference.str ∈ values.map key) :
    ∃ value ∈ values, key value = reference.str ∧
      find (entriesOf key values) reference = value := by
  rw [← keys_entriesOf] at known
  obtain ⟨value, member, same⟩ := mem_map.mp (find_mem known)
  rw [Prod.mk.injEq] at same
  exact ⟨value, member, same.1, same.2.symm⟩

/-- With distinct keys, what is found is what is named. -/
theorem exists_find_iff (distinct : (values.map key).Nodup) (reference : Json)
    (holds : Json → Prop) :
    (reference.isIn (keys (entriesOf key values)) = true ∧
      holds (find (entriesOf key values) reference)) ↔
    ∃ value ∈ values, reference = .text (key value) ∧ holds value := by
  rw [keys_entriesOf, Json.isIn_iff]
  constructor
  · rintro ⟨⟨text, known⟩, is⟩
    obtain ⟨value, member, named, found⟩ := find_entriesOf known
    rw [found] at is
    refine ⟨value, member, ?_, is⟩
    rw [named]
    exact Json.eq_text_of_isText text
  · rintro ⟨value, member, rfl, is⟩
    have known : (Json.text (key value)).str ∈ values.map key := mem_map_of_mem member
    obtain ⟨other, within, named, found⟩ := find_entriesOf known
    have same : other = value := inj_on_of_nodup_map distinct within member named
    rw [found, same]
    exact ⟨⟨rfl, known⟩, is⟩

theorem isIn_iff_names {events : List Json} :
    reference.isIn (idsOf kind events) = true ↔ Names kind events reference := by
  rw [Json.isIn_iff, idsOf, mem_map, Names]
  constructor
  · rintro ⟨text, data, member, named⟩
    refine ⟨data, member, ?_⟩
    rw [named]
    exact Json.eq_text_of_isText text
  · rintro ⟨data, member, rfl⟩
    exact ⟨rfl, data, member, rfl⟩

end

/-- The state of the validator at an event after others. -/
def openedAt (earlier : List Json) (event : Json) : Replay :=
  { Replay.of earlier with
    eventsById := (Replay.of earlier).eventsById ++ [(idOf event, event)]
    matchRun := (Replay.of earlier).matchRun || opens event }

section

variable {digest : Digest} {source : Bytes} {envelope : Envelope} {earlier : List Json}
  {event data : Json}

@[simp] theorem documents_openedAt :
    (openedAt earlier event).documents = idsOf .document earlier := rfl

@[simp] theorem snapshots_openedAt :
    keys (openedAt earlier event).snapshots = idsOf .snapshot earlier := by
  simp [openedAt, Replay.of, keys, idsOf]

@[simp] theorem keys_sourceNodes_openedAt :
    keys (openedAt earlier event).sourceNodes = idsOf .node earlier := keys_entriesOf

@[simp] theorem keys_terms_openedAt :
    keys (openedAt earlier event).terms = idsOf .term earlier := keys_entriesOf

@[simp] theorem keys_holes_openedAt :
    keys (openedAt earlier event).holes = idsOf .hole earlier := keys_entriesOf

@[simp] theorem keys_armWitnesses_openedAt :
    keys (openedAt earlier event).armWitnesses = closedHoles earlier := keys_entriesOf

end

/-- Earlier identities are distinct, nodes have spans and holes a node. -/
structure Grounded (earlier : List Json) : Prop where
  eventIds : (earlier.map idOf).Nodup
  nodes : (idsOf .node earlier).Nodup
  terms : (idsOf .term earlier).Nodup
  holes : (idsOf .hole earlier).Nodup
  arms : (closedHoles earlier).Nodup
  sources : ∀ hole ∈ dataOfKind .hole earlier, Names .node earlier (hole.get "source")
  spans : ∀ node ∈ dataOfKind .node earlier, ∀ start stop,
    (offset (node.get "span") "begin").isNumber start = true →
    (offset (node.get "span") "end").isNumber stop = true → start ≤ stop

section

variable {digest : Digest} {source : Bytes} {envelope : Envelope} {earlier : List Json}
  {event data : Json}

theorem documentAccepted_formed : (openedAt earlier event).DocumentAccepted data ↔
    DocumentFormed data ∧ (data.get "id").str ∉ idsOf .document earlier := by
  rw [Replay.documentAccepted_iff]
  exact ⟨fun ⟨text, fresh, shown⟩ => ⟨⟨text, shown⟩, fresh⟩,
    fun ⟨⟨text, shown⟩, fresh⟩ => ⟨text, fresh, shown⟩⟩

theorem snapshotAccepted_formed :
    (openedAt earlier event).SnapshotAccepted digest source data ↔
      SnapshotFormed digest source earlier data ∧
        (data.get "id").str ∉ idsOf .snapshot earlier := by
  rw [Replay.snapshotAccepted_iff, snapshots_openedAt, documents_openedAt, isIn_iff_names]
  exact ⟨fun ⟨text, fresh, rest⟩ => ⟨⟨text, rest.1, rest.2.1, rest.2.2.1, rest.2.2.2.1,
      rest.2.2.2.2⟩, fresh⟩,
    fun ⟨⟨text, object, document, revision, byteLength, hash⟩, fresh⟩ =>
      ⟨text, fresh, object, document, revision, byteLength, hash⟩⟩

theorem nodeAccepted_formed : (openedAt earlier event).NodeAccepted source data ↔
    NodeFormed source earlier data ∧ (data.get "id").str ∉ idsOf .node earlier ∧
      (data.get "parse_local_node_id").integer ∉ (dataOfKind .node earlier).map fun data =>
        (data.get "parse_local_node_id").integer := by
  constructor
  · intro accepted
    have snapshot := accepted.snapshot
    have fresh := accepted.fresh
    rw [snapshots_openedAt, isIn_iff_names] at snapshot
    rw [keys_sourceNodes_openedAt] at fresh
    exact ⟨⟨accepted.text, snapshot, accepted.natural, accepted.span, accepted.start, accepted.stop,
      accepted.kind, accepted.startInt, accepted.stopInt, accepted.inside⟩, fresh,
      accepted.freshNode⟩
  · rintro ⟨formed, fresh, freshNode⟩
    refine ⟨formed.text, ?_, ?_, formed.natural, freshNode, formed.span, formed.start, formed.stop,
      formed.kind, formed.startInt, formed.stopInt, formed.inside⟩
    · rwa [keys_sourceNodes_openedAt]
    · rw [snapshots_openedAt, isIn_iff_names]
      exact formed.snapshot

theorem termAccepted_formed : (openedAt earlier event).TermAccepted digest envelope data ↔
    TermFormed digest envelope data ∧ (data.get "id").str ∉ idsOf .term earlier ∧
      ((data.get "identity").get "handle").integer ∉ (dataOfKind .term earlier).map fun data =>
        ((data.get "identity").get "handle").integer := by
  have sorts : (data.get "sort_bindings").items.all Replay.sortBinding = true ↔
      ∀ binding ∈ (data.get "sort_bindings").items, SortBound binding := by
    simp only [all_eq_true, sortBinding_iff]
  have declarations : (data.get "declaration_bindings").items.all
      (Replay.declarationBinding (Replay.sortNames data)) = true ↔
      ∀ binding ∈ (data.get "declaration_bindings").items,
        DeclarationBound (data.get "sort_bindings").items binding := by
    simp only [all_eq_true, declarationBinding_iff]
  constructor
  · intro accepted
    have fresh := accepted.fresh
    rw [keys_terms_openedAt] at fresh
    exact ⟨⟨accepted.text, accepted.object, matches_iff.mp accepted.sameRun, accepted.natural,
      accepted.representation, accepted.origin, accepted.rendering, accepted.hash,
      accepted.diagnostic, accepted.pending, accepted.sorts, accepted.declarations,
      aliases_iff.mp accepted.sortAliases, sorts.mp accepted.sortBindings,
      aliases_iff.mp accepted.declarationAliases, declarations.mp accepted.declarationBindings⟩,
      fresh, accepted.freshHandle⟩
  · rintro ⟨formed, fresh, freshHandle⟩
    refine ⟨formed.text, ?_, formed.object, matches_iff.mpr formed.sameRun, formed.natural,
      freshHandle, formed.representation, formed.origin, formed.rendering, formed.hash,
      formed.diagnostic, formed.pending, formed.sorts, formed.declarations,
      aliases_iff.mpr formed.sortAliases, sorts.mpr formed.sortBindings,
      aliases_iff.mpr formed.declarationAliases, declarations.mpr formed.declarationBindings⟩
    rwa [keys_terms_openedAt]

theorem liftAccepted_formed (grounded : Grounded earlier) :
    (openedAt earlier event).LiftAccepted data ↔ LiftFormed earlier data ∧
      (data.get "term").str ∉ (dataOfKind .lift earlier).map fun data =>
        (data.get "term").str := by
  have found := exists_find_iff grounded.terms (data.get "term") fun term =>
    data.get "rendering_hash" = .text (term.get "rendering_hash").str
  constructor
  · intro accepted
    exact ⟨⟨accepted.exact, found.mp ⟨accepted.term, accepted.hash⟩⟩, accepted.once⟩
  · rintro ⟨formed, once⟩
    obtain ⟨term, hash⟩ := found.mpr formed.term
    exact ⟨term, once, formed.exact, hash⟩

theorem holeAccepted_formed (grounded : Grounded earlier) :
    (openedAt earlier event).HoleAccepted data ↔
      HoleFormed earlier data ∧ (data.get "id").str ∉ idsOf .hole earlier := by
  have found := exists_find_iff grounded.nodes (data.get "source") fun node =>
    data.get "snapshot" = .text (node.get "snapshot").str ∧
      node.get "syntax_kind" = .text "expr.hole"
  constructor
  · intro accepted
    have fresh := accepted.fresh
    have snapshot := accepted.snapshot
    have terms := accepted.terms
    simp only [keys_holes_openedAt] at fresh
    simp only [snapshots_openedAt, isIn_iff_names] at snapshot
    simp only [keys_terms_openedAt, isIn_iff_names] at terms
    exact ⟨⟨accepted.text, snapshot, found.mp ⟨accepted.source, accepted.same, accepted.kind⟩,
      accepted.name, accepted.type, accepted.grammar, accepted.inputs, terms⟩, fresh⟩
  · rintro ⟨formed, fresh⟩
    obtain ⟨source, same, kind⟩ := found.mpr formed.source
    refine ⟨formed.text, ?_, ?_, source, same, kind, formed.name, formed.type, formed.grammar,
      formed.inputs, fun item member => ?_⟩
    · rwa [keys_holes_openedAt]
    · rw [snapshots_openedAt, isIn_iff_names]
      exact formed.snapshot
    · rw [keys_terms_openedAt, isIn_iff_names]
      exact formed.terms item member

theorem armAccepted_formed : (openedAt earlier event).ArmAccepted data ↔
    ArmFormed earlier data ∧ (data.get "hole").str ∉ closedHoles earlier := by
  rw [Replay.armAccepted_iff, keys_holes_openedAt, keys_armWitnesses_openedAt,
    keys_terms_openedAt, isIn_iff_names, isIn_iff_names]
  exact ⟨fun ⟨hole, once, name, body, term, verified⟩ =>
      ⟨⟨hole, name, body, term, verified⟩, once⟩,
    fun ⟨⟨hole, name, body, term, verified⟩, once⟩ => ⟨hole, once, name, body, term, verified⟩⟩

/-- A replacement is accepted when it is formed. -/
theorem replacementAccepted_formed (grounded : Grounded earlier) {replacement : Json} :
    (openedAt earlier event).ReplacementAccepted replacement ↔
      ReplacementFormed earlier replacement := by
  -- The node of a hole stands at the range of the replacement.
  let placed (node : Json) : Prop :=
    (offset (node.get "span") "begin").isNumber (replacement.get "from").integer = true ∧
      (offset (node.get "span") "end").isNumber (replacement.get "to").integer = true
  have hole := exists_find_iff grounded.holes (replacement.get "hole") fun hole =>
    ∃ node ∈ dataOfKind .node earlier, hole.get "source" = .text (node.get "id").str ∧ placed node
  have arm := exists_find_iff grounded.arms (replacement.get "hole") fun arm =>
    arm.get "body" = .text (replacement.get "insert").str
  constructor
  · intro accepted
    have named := (Json.isIn_iff.mp accepted.hole).2
    rw [keys_holes_openedAt] at named
    obtain ⟨found, member, -, is⟩ := find_entriesOf named
    have known := grounded.sources found member
    rw [← isIn_iff_names, ← is] at known
    have node := (exists_find_iff grounded.nodes _ placed).mp
      ⟨keys_entriesOf ▸ known, accepted.atStart, accepted.atStop⟩
    exact ⟨accepted.object, accepted.fields, accepted.start, accepted.stop, accepted.insert,
      hole.mp ⟨accepted.hole, node⟩, arm.mp ⟨accepted.closed, accepted.body⟩⟩
  · intro formed
    obtain ⟨isHole, node⟩ := hole.mpr formed.hole
    obtain ⟨-, atStart, atStop⟩ := (exists_find_iff grounded.nodes _ placed).mpr node
    obtain ⟨closed, body⟩ := arm.mpr formed.arm
    exact ⟨formed.object, formed.fields, isHole, formed.start, formed.stop, formed.insert, atStart,
      atStop, closed, body⟩

theorem opens_of_kind (kind : Operation.of (operationOf event) ≠ .other) : opens event = false := by
  rw [opens, Replay.opensMatch, Bool.and_eq_false_iff]
  left
  rw [beq_eq_false_iff_ne]
  intro same
  apply kind
  rw [same]
  decide

section

variable (grounded : Grounded earlier)

include grounded

/-- A witness is accepted when it is formed and the first. -/
theorem witnessAccepted_formed (kind : Operation.of (operationOf event) = .witness) :
    (openedAt earlier event).WitnessAccepted data ↔
      WitnessFormed earlier data ∧ (ofKind .witness earlier).length = 0 := by
  have opened : (openedAt earlier event).matchRun = earlier.any opens := by
    show (earlier.any opens || opens event) = _
    rw [opens_of_kind (by rw [kind]; decide), Bool.or_false]
  have found : (openedAt earlier event).matchRun = true ↔ ∃ opening ∈ earlier, OpensMatch opening := by
    simp only [opened, any_eq_true, opens_iff]
  have closed : (∀ hole, hole ∈ closedHoles earlier ↔ hole ∈ idsOf .hole earlier) ↔
      (closedHoles earlier).Perm (idsOf .hole earlier) :=
    (perm_ext_iff_of_nodup grounded.arms grounded.holes).symm
  have ordered (each : ∀ replacement ∈ (data.get "replacements").items,
      ReplacementFormed earlier replacement) :
      Replay.rangesOrdered ((data.get "replacements").items.map Replay.range) = true ↔
        (data.get "replacements").items.Pairwise fun first second =>
          (first.get "to").integer ≤ (second.get "from").integer := by
    rw [rangesOrdered_iff, pairwise_map]
    · rfl
    · intro range member
      obtain ⟨replacement, inside, rfl⟩ := mem_map.mp member
      obtain ⟨_, -, -, node, known, -, start, stop⟩ := (each replacement inside).hole
      exact grounded.spans node known _ _ start stop
  constructor
  · intro accepted
    have each := fun replacement member => (replacementAccepted_formed grounded).mp
      (accepted.each replacement member)
    have all := accepted.all
    have last := accepted.closed
    have term := accepted.term
    simp only [keys_holes_openedAt, keys_armWitnesses_openedAt] at all last
    rw [keys_terms_openedAt, isIn_iff_names] at term
    exact ⟨⟨found.mp accepted.matchRun, term, accepted.verified, accepted.array, accepted.count,
      each, (ordered each).mp accepted.ordered,
      (perm_ext_iff_of_nodup accepted.distinct grounded.holes).mpr all, closed.mp last⟩,
      accepted.first⟩
  · rintro ⟨formed, first⟩
    refine ⟨found.mpr formed.opened, first, ?_, formed.verified, formed.array, formed.count,
      fun replacement member => (replacementAccepted_formed grounded).mpr
        (formed.each replacement member),
      formed.all.nodup_iff.mpr grounded.holes, (ordered formed.each).mpr formed.ordered, ?_, ?_⟩
    · rw [keys_terms_openedAt, isIn_iff_names]
      exact formed.term
    · simp only [keys_holes_openedAt]
      exact fun hole => formed.all.mem_iff
    · simp only [keys_holes_openedAt, keys_armWitnesses_openedAt]
      exact closed.mpr formed.closed

/-- An instance is accepted when it is formed. -/
theorem instanceAccepted_formed (fresh : idOf event ∉ earlier.map idOf) :
    (openedAt earlier event).InstanceAccepted (idOf event) data ↔ InstanceFormed earlier data := by
  have found := exists_find_iff grounded.eventIds (data.get "quantifier_instance_event")
    fun accepted => (accepted.get "operation" = .text "z3.mbqi-instance" ∨
        accepted.get "operation" = .text "z3.quantifier-instance") ∧
      (dataOf accepted).get "quantifier" = .text (data.get "quantifier").str ∧
      (dataOf accepted).get "instance" = .text (data.get "instance").str
  have entries : (openedAt earlier event).eventsById =
      entriesOf idOf earlier ++ [(idOf event, event)] := rfl
  -- Any other identity is looked up among the earlier events.
  have among : (data.get "quantifier_instance_event").str ≠ idOf event →
      find (openedAt earlier event).eventsById (data.get "quantifier_instance_event") =
        find (entriesOf idOf earlier) (data.get "quantifier_instance_event") := by
    intro other
    rw [entries, find, find, lookup_append]
    simp [lookup_cons, beq_eq_false_iff_ne.mpr other]
  have known : (data.get "quantifier_instance_event").str ≠ idOf event →
      ((data.get "quantifier_instance_event").isIn (keys (openedAt earlier event).eventsById) =
          true ↔
        (data.get "quantifier_instance_event").isIn (keys (entriesOf idOf earlier)) = true) := by
    intro other
    rw [entries, Json.isIn_iff, Json.isIn_iff, keys, map_append, mem_append]
    simp [keys, other]
  constructor
  · intro accepted
    have other := accepted.earlier
    have here := accepted.accepted
    have quantified := accepted.sameQuantifier
    have instanced := accepted.sameInstance
    rw [among other] at here quantified instanced
    have quantifier := accepted.quantifier
    have instance_ := accepted.instance_
    have terms := accepted.terms
    simp only [keys_terms_openedAt, isIn_iff_names] at quantifier instance_ terms
    exact ⟨found.mp ⟨(known other).mp accepted.event, here, quantified, instanced⟩, quantifier,
      instance_, accepted.bindings, terms, accepted.relation⟩
  · intro formed
    obtain ⟨event_, here, quantified, instanced⟩ := found.mpr formed.event
    have other : (data.get "quantifier_instance_event").str ≠ idOf event := by
      intro same
      rw [keys_entriesOf, Json.isIn_iff, same] at event_
      exact fresh event_.2
    refine ⟨(known other).mpr event_, other, ?_, ?_, ?_, ?_, ?_, formed.bindings, ?_,
      formed.relation⟩
    · rwa [among other]
    · rw [keys_terms_openedAt, isIn_iff_names]
      exact formed.quantifier
    · rw [keys_terms_openedAt, isIn_iff_names]
      exact formed.instance_
    · rw [among other]
      exact quantified
    · rw [among other]
      exact instanced
    · simp only [keys_terms_openedAt, isIn_iff_names]
      exact formed.terms

theorem clauseAccepted_formed (fresh : idOf event ∉ earlier.map idOf) {operation : String} :
    (openedAt earlier event).ClauseAccepted (idOf event) operation data ↔
      ClauseFormed earlier operation data := by
  rw [Replay.clauseAccepted_iff]
  simp only [keys_terms_openedAt, isIn_iff_names, instanceAccepted_formed grounded fresh,
    isInstance_iff, and_imp]
  exact ⟨fun ⟨hint, array, literals, count, dependencies, indices, instances⟩ =>
      ⟨hint, array, literals, count, dependencies, indices, instances⟩,
    fun formed => ⟨formed.hint, formed.array, formed.literals, formed.count, formed.dependencies,
      formed.indices, formed.instances⟩⟩

def FreshAs (kind : Operation) (earlier : List Json) (data : Json) : Prop :=
  match kind with
  | .document => (data.get "id").str ∉ idsOf .document earlier
  | .snapshot => (data.get "id").str ∉ idsOf .snapshot earlier
  | .node => (data.get "id").str ∉ idsOf .node earlier ∧
    (data.get "parse_local_node_id").integer ∉ (dataOfKind .node earlier).map fun data =>
      (data.get "parse_local_node_id").integer
  | .term => (data.get "id").str ∉ idsOf .term earlier ∧
    ((data.get "identity").get "handle").integer ∉ (dataOfKind .term earlier).map fun data =>
      ((data.get "identity").get "handle").integer
  | .lift => (data.get "term").str ∉ (dataOfKind .lift earlier).map fun data =>
      (data.get "term").str
  | .hole => (data.get "id").str ∉ idsOf .hole earlier
  | .arm => (data.get "hole").str ∉ closedHoles earlier
  | .witness => (ofKind .witness earlier).length = 0
  | .evidence => True
  | .clause => True
  | .other => True

def Fresh (earlier : List Json) (event : Json) : Prop :=
  FreshAs (Operation.of (operationOf event)) earlier (dataOf event)

theorem dataAccepted_formed (fresh : idOf event ∉ earlier.map idOf) :
    Replay.DataAccepted digest source envelope (openedAt earlier event) (idOf event)
        (operationOf event) (dataOf event) ↔
      DataFormed digest source envelope earlier (operationOf event) (dataOf event) ∧
        Fresh earlier event := by
  rw [Replay.DataAccepted, DataFormed, Fresh]
  cases kind : Operation.of (operationOf event) with
  | document => exact documentAccepted_formed
  | snapshot => exact snapshotAccepted_formed
  | node => exact nodeAccepted_formed
  | term => exact termAccepted_formed
  | lift => exact liftAccepted_formed grounded
  | hole => exact holeAccepted_formed grounded
  | arm => exact armAccepted_formed
  | witness => exact witnessAccepted_formed grounded kind
  | clause => exact (clauseAccepted_formed grounded fresh).trans (and_true _).symm.to_iff
  | evidence | other => exact (and_true _).symm.to_iff

theorem accepted_formed :
    (Replay.of earlier).Accepted digest source envelope sequence event ↔
      EventFormed digest source envelope earlier sequence event ∧
        idOf event ∉ earlier.map idOf ∧ Fresh earlier event ∧ earlier.any ends = false := by
  have ids : keys (Replay.of earlier).eventsById = earlier.map idOf := by
    simp [Replay.of, keys]
  have running : (Replay.of earlier).terminalSequence = none ↔ earlier.any ends = false := by
    show earlier.findIdx? ends = none ↔ _
    rw [findIdx?_eq_none_iff, any_eq_false]
    simp
  constructor
  · intro accepted
    have fresh := accepted.fresh
    rw [ids] at fresh
    obtain ⟨formed, new⟩ := (dataAccepted_formed grounded fresh).mp accepted.data
    exact ⟨⟨accepted.schema, accepted.number, matches_iff.mp accepted.sameRun, accepted.text,
      accepted.array, accepted.scopes, accepted.operation, accepted.object, formed⟩, fresh, new,
      running.mp accepted.running⟩
  · rintro ⟨formed, fresh, new, before⟩
    refine ⟨formed.schema, formed.number, matches_iff.mpr formed.sameRun, formed.text, ?_,
      formed.array,
      formed.scopes, running.mpr before, formed.operation, formed.object,
      (dataAccepted_formed grounded fresh).mpr ⟨formed.data, new⟩⟩
    rwa [ids]

end

end

section

variable {digest : Digest} {source : Bytes} {events : List Json}

theorem nodup_dataOfKind_iff {α : Type} {value : Json → α} :
    ((dataOfKind kind events).map value).Nodup ↔ ∀ index event, events[index]? = some event →
      Operation.of (operationOf event) = kind →
      value (dataOf event) ∉ (dataOfKind kind (events.take index)).map value := by
  have all : ∀ some : List Json, (dataOfKind kind some).map value = (some.filter fun event =>
      decide (Operation.of (operationOf event) = kind)).map fun event => value (dataOf event) := by
    intro some
    simp [dataOfKind, ofKind]
  simp only [all, nodup_filter_map_iff, decide_eq_true_eq]

theorem nodup_idOf_iff : (events.map idOf).Nodup ↔ ∀ index event, events[index]? = some event →
    idOf event ∉ (events.take index).map idOf := by
  have all : ((events.filter fun _ => true).map idOf).Nodup ↔ _ := nodup_filter_map_iff
  simpa using all

/-- The identities of a whole replay are used once. -/
structure Distinct (events : List Json) : Prop where
  documents : (idsOf .document events).Nodup
  snapshots : (idsOf .snapshot events).Nodup
  nodes : (idsOf .node events).Nodup
  parseNodes : ((dataOfKind .node events).map fun data =>
    (data.get "parse_local_node_id").integer).Nodup
  terms : (idsOf .term events).Nodup
  handles : ((dataOfKind .term events).map fun data =>
    ((data.get "identity").get "handle").integer).Nodup
  lifts : ((dataOfKind .lift events).map fun data => (data.get "term").str).Nodup
  holes : (idsOf .hole events).Nodup
  arms : (closedHoles events).Nodup
  witness : (ofKind .witness events).length ≤ 1

theorem witness_le_one_iff : (ofKind .witness events).length ≤ 1 ↔
    ∀ index event, events[index]? = some event → Operation.of (operationOf event) = .witness →
      (ofKind .witness (events.take index)).length = 0 := by
  have unit : (ofKind .witness events).length ≤ 1 ↔
      ((dataOfKind .witness events).map fun _ => ()).Nodup := by
    have size : (dataOfKind .witness events).length = (ofKind .witness events).length := by
      simp [dataOfKind]
    rw [map_const', nodup_replicate, size]
  rw [unit, nodup_dataOfKind_iff]
  refine forall_congr' fun index => forall_congr' fun event => forall_congr' fun _ =>
    forall_congr' fun _ => ?_
  simp [dataOfKind, eq_nil_iff_forall_not_mem]

/-- Identities are distinct when every event declares new ones. -/
theorem distinct_iff : Distinct events ↔
    ∀ index event, events[index]? = some event → Fresh (events.take index) event := by
  constructor
  · intro distinct index event found
    rw [Fresh]
    cases kind : Operation.of (operationOf event) with
    | document => exact nodup_dataOfKind_iff.mp distinct.documents index event found kind
    | snapshot => exact nodup_dataOfKind_iff.mp distinct.snapshots index event found kind
    | node =>
      exact ⟨nodup_dataOfKind_iff.mp distinct.nodes index event found kind,
        nodup_dataOfKind_iff.mp distinct.parseNodes index event found kind⟩
    | term =>
      exact ⟨nodup_dataOfKind_iff.mp distinct.terms index event found kind,
        nodup_dataOfKind_iff.mp distinct.handles index event found kind⟩
    | lift => exact nodup_dataOfKind_iff.mp distinct.lifts index event found kind
    | hole => exact nodup_dataOfKind_iff.mp distinct.holes index event found kind
    | arm => exact nodup_dataOfKind_iff.mp distinct.arms index event found kind
    | witness => exact witness_le_one_iff.mp distinct.witness index event found kind
    | evidence | clause | other => trivial
  · intro fresh
    have new : ∀ kind index event, events[index]? = some event →
        Operation.of (operationOf event) = kind →
        FreshAs kind (events.take index) (dataOf event) := by
      rintro _ index event found rfl
      exact fresh index event found
    exact {
      documents := nodup_dataOfKind_iff.mpr (new .document)
      snapshots := nodup_dataOfKind_iff.mpr (new .snapshot)
      nodes := nodup_dataOfKind_iff.mpr fun index event found kind =>
        (new .node index event found kind).1
      parseNodes := nodup_dataOfKind_iff.mpr fun index event found kind =>
        (new .node index event found kind).2
      terms := nodup_dataOfKind_iff.mpr fun index event found kind =>
        (new .term index event found kind).1
      handles := nodup_dataOfKind_iff.mpr fun index event found kind =>
        (new .term index event found kind).2
      lifts := nodup_dataOfKind_iff.mpr (new .lift)
      holes := nodup_dataOfKind_iff.mpr (new .hole)
      arms := nodup_dataOfKind_iff.mpr (new .arm)
      witness := witness_le_one_iff.mpr (new .witness) }

theorem Names.mono {earlier later : List Json} {reference : Json} (sublist : earlier.Sublist later)
    (names : Names kind earlier reference) : Names kind later reference := by
  obtain ⟨data, member, same⟩ := names
  exact ⟨data, ((sublist.filter _).map _).subset member, same⟩

variable {index : Nat}

/-- Distinct earlier events are grounded, if holes have nodes and nodes spans. -/
theorem Distinct.grounded (distinct : Distinct events) (ids : (events.map idOf).Nodup)
    (sources : ∀ hole ∈ dataOfKind .hole (events.take index),
      Names .node (events.take index) (hole.get "source"))
    (spans : ∀ node ∈ dataOfKind .node (events.take index), ∀ start stop,
      (offset (node.get "span") "begin").isNumber start = true →
      (offset (node.get "span") "end").isNumber stop = true → start ≤ stop) :
    Grounded (events.take index) := by
  have sublist : (events.take index).Sublist events := take_sublist index events
  have part : ∀ {α : Type} {kind : Operation} {value : Json → α},
      ((dataOfKind kind events).map value).Nodup →
      ((dataOfKind kind (events.take index)).map value).Nodup :=
    fun nodup => nodup.sublist (((sublist.filter _).map _).map _)
  exact ⟨ids.sublist (sublist.map _), part distinct.nodes, part distinct.terms,
    part distinct.holes, part distinct.arms, sources, spans⟩

theorem mem_dataOfKind_take {data : Json} (member : data ∈ dataOfKind kind (events.take index)) :
    ∃ place event, place < index ∧ events[place]? = some event ∧
      Operation.of (operationOf event) = kind ∧ dataOf event = data := by
  obtain ⟨event, inside, same⟩ := mem_map.mp member
  obtain ⟨within, is⟩ := mem_filter.mp inside
  obtain ⟨place, below, rfl⟩ := mem_take_iff_getElem.mp within
  exact ⟨place, _, by omega, List.getElem?_eq_getElem (by omega), of_decide_eq_true is, same⟩

theorem any_opens_iff : (Replay.of events).matchRun = true ↔ ∃ opening ∈ events, OpensMatch opening := by
  simp only [Replay.of, any_eq_true, opens_iff]

/-- The last event alone ends the run. -/
theorem closes_iff (nonempty : events ≠ []) :
    ((∀ index event, events[index]? = some event → (events.take index).any ends = false) ∧
      (Replay.of events).terminalSequence = some (events.length - 1)) ↔
    ∀ index event, events[index]? = some event →
      (Ends event ↔ index + 1 = events.length) := by
  simp only [← ends_iff]
  have positive : 0 < events.length := length_pos_iff.mpr nonempty
  have terminal : (Replay.of events).terminalSequence = some (events.length - 1) ↔
      ∃ inside : events.length - 1 < events.length, ends events[events.length - 1] = true ∧
        ∀ place, (below : place < events.length - 1) → ¬ ends events[place] = true := by
    show events.findIdx? ends = some (events.length - 1) ↔ _
    rw [findIdx?_eq_some_iff_getElem]
  rw [terminal]
  constructor
  · rintro ⟨-, inside, last, others⟩ index event found
    obtain ⟨within, rfl⟩ := List.getElem?_eq_some_iff.mp found
    constructor
    · intro closing
      by_contra early
      exact others index (by omega) closing
    · intro final
      have place : index = events.length - 1 := by omega
      subst place
      exact last
  · intro closing
    refine ⟨fun index event found => ?_, by omega, ?_, fun place below => ?_⟩
    · rw [any_eq_false]
      intro earlier member
      obtain ⟨within, -⟩ := List.getElem?_eq_some_iff.mp found
      obtain ⟨place, below, rfl⟩ := mem_take_iff_getElem.mp member
      rw [closing place _ (List.getElem?_eq_getElem (by omega))]
      omega
    · rw [closing (events.length - 1) _ (List.getElem?_eq_getElem (by omega))]
      omega
    · rw [closing place _ (List.getElem?_eq_getElem (by omega))]
      omega

/-- An accepted event is new. -/
theorem accepted_fresh {envelope : Envelope} {earlier : List Json} {event : Json}
    (accepted : (Replay.of earlier).Accepted digest source envelope sequence event) :
    idOf event ∉ earlier.map idOf ∧ Fresh earlier event := by
  have ids : keys (Replay.of earlier).eventsById = earlier.map idOf := by
    simp [Replay.of, keys]
  have data : Replay.DataAccepted digest source envelope (openedAt earlier event) (idOf event)
    (operationOf event) (dataOf event) := accepted.data
  refine ⟨ids ▸ accepted.fresh, ?_⟩
  rw [Replay.DataAccepted] at data
  rw [Fresh]
  cases kind : Operation.of (operationOf event) with
  | document =>
    rw [kind] at data
    exact (documentAccepted_formed.mp data).2
  | snapshot =>
    rw [kind] at data
    exact (snapshotAccepted_formed.mp data).2
  | node =>
    rw [kind] at data
    exact (nodeAccepted_formed.mp data).2
  | term =>
    rw [kind] at data
    exact (termAccepted_formed.mp data).2
  | lift =>
    rw [kind] at data
    exact data.once
  | hole =>
    rw [kind] at data
    have fresh := data.fresh
    rw [keys_holes_openedAt] at fresh
    exact fresh
  | arm =>
    rw [kind] at data
    exact (armAccepted_formed.mp data).2
  | witness =>
    rw [kind] at data
    exact data.first
  | evidence | clause | other => trivial

theorem accepted_source {envelope : Envelope} {earlier : List Json} {event : Json}
    (accepted : (Replay.of earlier).Accepted digest source envelope sequence event)
    (kind : Operation.of (operationOf event) = .hole) :
    Names .node earlier ((dataOf event).get "source") := by
  have data : Replay.DataAccepted digest source envelope (openedAt earlier event) (idOf event)
    (operationOf event) (dataOf event) := accepted.data
  rw [Replay.DataAccepted, kind] at data
  have known := data.source
  rwa [keys_sourceNodes_openedAt, isIn_iff_names] at known

theorem accepted_node {envelope : Envelope} {earlier : List Json} {event : Json}
    (accepted : (Replay.of earlier).Accepted digest source envelope sequence event)
    (kind : Operation.of (operationOf event) = .node) :
    NodeFormed source earlier (dataOf event) := by
  have data : Replay.DataAccepted digest source envelope (openedAt earlier event) (idOf event)
    (operationOf event) (dataOf event) := accepted.data
  rw [Replay.DataAccepted, kind] at data
  exact (nodeAccepted_formed.mp data).1

theorem edgeAccepted_formed (nodes : (idsOf .node events).Nodup) {edge : Json} :
    (Replay.of events).EdgeAccepted edge ↔ EdgeFormed events edge := by
  have found := exists_find_iff nodes (edge.get "source") fun node =>
    edge.get "snapshot" = .text (node.get "snapshot").str
  have terms : keys (Replay.of events).terms = idsOf .term events := by
    simp [Replay.of, keys, idsOf]
  constructor
  · intro accepted
    have term := accepted.term
    rw [terms, isIn_iff_names] at term
    exact ⟨accepted.correspondence, term, accepted.internal,
      fun outside => found.mp ⟨accepted.source outside, accepted.snapshot outside⟩⟩
  · intro formed
    refine ⟨formed.correspondence, ?_, formed.internal,
      fun outside => (found.mpr (formed.source outside)).1,
      fun outside => (found.mpr (formed.source outside)).2⟩
    rw [terms, isIn_iff_names]
    exact formed.term

theorem ne_nil_of_envelope (run : ((events.headD .null).get "run").isName = true) :
    events ≠ [] := by
  rintro rfl
  cases run

theorem no_witness {envelope : Envelope}
    (each : ∀ index event, events[index]? = some event →
      EventFormed digest source envelope (events.take index) index event)
    (closed : ∀ event ∈ events, ¬ OpensMatch event) : ofKind .witness events = [] := by
  rw [eq_nil_iff_forall_not_mem]
  intro event member
  obtain ⟨inside, kind⟩ := mem_filter.mp member
  obtain ⟨index, within, rfl⟩ := getElem_of_mem inside
  have data := (each index _ (List.getElem?_eq_getElem within)).data
  rw [DataFormed, of_decide_eq_true kind] at data
  obtain ⟨earlier, before, opening⟩ := data.opened
  exact closed earlier (mem_of_mem_take before) opening

/-- What the validator accepts is well-formed. -/
theorem ReplayAccepted.wellFormed (accepted : ReplayAccepted digest source events) :
    WellFormed digest source events := by
  have nonempty := ne_nil_of_envelope accepted.run
  have ids : (events.map idOf).Nodup := nodup_idOf_iff.mpr fun index event found =>
    (accepted_fresh (accepted.each index event found)).1
  have distinct : Distinct events := distinct_iff.mpr fun index event found =>
    (accepted_fresh (accepted.each index event found)).2
  have grounded : ∀ index, Grounded (events.take index) := by
    intro index
    refine distinct.grounded ids (fun hole member => ?_) fun node member => ?_
    · obtain ⟨place, event, below, found, kind, rfl⟩ := mem_dataOfKind_take member
      exact (accepted_source (accepted.each place event found) kind).mono
        (take_sublist_take_left (by omega))
    · obtain ⟨place, event, -, found, kind, rfl⟩ := mem_dataOfKind_take member
      exact fun _ _ => (accepted_node (accepted.each place event found) kind).ordered
  have formed := fun index event found =>
    (accepted_formed (grounded index)).mp (accepted.each index event found)
  have each := fun index event found => (formed index event found).1
  have terms : keys (Replay.of events).terms = idsOf .term events := by
    simp [Replay.of, keys, idsOf]
  have validated := accepted.finished.validated
  rw [terms] at validated
  refine ⟨accepted.run, accepted.recorder, accepted.manager, each, ids, ?_, ?_, distinct.nodes,
    distinct.parseNodes, distinct.terms, distinct.handles, distinct.holes, distinct.arms,
    (perm_ext_iff_of_nodup distinct.lifts distinct.terms).mpr validated,
    fun opened => accepted.finished.witness (any_opens_iff.mpr opened), no_witness each, ?_,
    fun edge member => (edgeAccepted_formed distinct.nodes).mp
      (accepted.finished.edges edge member)⟩
  · simpa [Replay.of] using accepted.finished.document
  · simpa [Replay.of] using accepted.finished.snapshot
  · exact (closes_iff nonempty).mp ⟨fun index event found => (formed index event found).2.2.2,
      accepted.finished.terminal⟩

/-- What is well-formed is accepted. -/
theorem WellFormed.accepted (formed : WellFormed digest source events) :
    ReplayAccepted digest source events := by
  have nonempty := ne_nil_of_envelope formed.run
  obtain ⟨running, terminal⟩ := (closes_iff nonempty).mpr formed.closes
  have single : ∀ {kind : Operation}, (dataOfKind kind events).length = 1 →
      (idsOf kind events).Nodup := by
    intro kind one
    obtain ⟨data, is⟩ := length_eq_one_iff.mp one
    simp [idsOf, is]
  have distinct : Distinct events := {
    documents := single formed.document
    snapshots := single formed.snapshot
    nodes := formed.nodes
    parseNodes := formed.parseNodes
    terms := formed.terms
    handles := formed.handles
    lifts := formed.validated.nodup_iff.mpr formed.terms
    holes := formed.holes
    arms := formed.arms
    witness := by
      by_cases opened : ∃ opening ∈ events, OpensMatch opening
      · exact (formed.witness opened).le
      · rw [formed.noWitness fun event member opens => opened ⟨event, member, opens⟩]
        exact Nat.zero_le 1 }
  have grounded : ∀ index, Grounded (events.take index) := by
    intro index
    refine distinct.grounded formed.eventIds (fun hole member => ?_) fun node member => ?_
    · obtain ⟨place, event, below, found, kind, rfl⟩ := mem_dataOfKind_take member
      have data := (formed.each place event found).data
      rw [DataFormed, kind] at data
      obtain ⟨node, inside, same, -⟩ := data.source
      exact Names.mono (take_sublist_take_left (by omega)) ⟨node, inside, same⟩
    · obtain ⟨place, event, -, found, kind, rfl⟩ := mem_dataOfKind_take member
      have data := (formed.each place event found).data
      rw [DataFormed, kind] at data
      exact fun _ _ => data.ordered
  have terms : keys (Replay.of events).terms = idsOf .term events := by
    simp [Replay.of, keys, idsOf]
  refine ⟨formed.run, formed.recorder, formed.manager, fun index event found =>
    (accepted_formed (grounded index)).mpr ⟨formed.each index event found,
      nodup_idOf_iff.mp formed.eventIds index event found,
      distinct_iff.mp distinct index event found, running index event found⟩, ?_⟩
  refine ⟨?_, ?_, terminal, ?_, ?_, fun edge member =>
    (edgeAccepted_formed formed.nodes).mpr (formed.edges edge member)⟩
  · simpa [Replay.of] using formed.document
  · simpa [Replay.of] using formed.snapshot
  · rw [terms]
    exact fun term => formed.validated.mem_iff
  · exact fun opened => formed.witness (any_opens_iff.mp opened)

/-- The validator accepts exactly the well-formed replays. -/
theorem validate_wellFormed_iff (digest : Digest) (source : Bytes) (events : List Json) :
    (∃ counts, validate digest source events = .ok counts) ↔ WellFormed digest source events := by
  rw [validate_ok_iff]
  exact ⟨ReplayAccepted.wellFormed, WellFormed.accepted⟩

end

/-- A source with one node, which is a hole. -/
def holeSource : List Json :=
  [sampleEvent "run:0" 0 "source.document.declare"
      [("id", .text "document:0"), ("display_name", .text "source.fine")],
    sampleEvent "run:0" 1 "source.snapshot.declare"
      [("id", .text "snapshot:0"), ("identity", sampleIdentity "document:0" 0 sampleSource)],
    sampleEvent "run:0" 2 "source.node.declare"
      [("id", .text "node:0"), ("snapshot", .text "snapshot:0"), ("parse_local_node_id", .int 0),
        ("syntax_kind", .text "expr.hole"),
        ("span", .object [("begin", samplePosition 0), ("end", samplePosition 3)])]]

/-- The node is declared as a hole. -/
def holeDeclared (sequence : Nat) : Json :=
  sampleEvent "run:0" sequence "synth.hole.declare"
    [("id", .text "hole:0"), ("snapshot", .text "snapshot:0"), ("source", .text "node:0"),
      ("name", .text "payload"), ("expected_type", .text "Int"),
      ("grammar", .text "fine.qf-lia-int.v1"), ("grammar_inputs", .array [])]

/-- A run without a match that closes with a hole open. -/
def openHole : List Json :=
  holeSource ++ [holeDeclared 3, sampleEvent "run:0" 4 "synth.run.close" []]

/-- A match run with a hole after the witness, which replaces none. -/
def lateHole : List Json :=
  holeSource ++ [sampleEvent "run:0" 3 "term.declare" (sampleTerm "run:0"),
    sampleEvent "run:0" 4 "term.lift.validate"
      [("term", .text "term:0"), ("parse_reify_exact_identity", .bool true),
        ("rendering_hash", .text (Digest.sample.identity (Utf8.encode "true")))],
    sampleEvent "run:0" 5 "synth.run.open" [("matched_parameter", .text "b")],
    sampleEvent "run:0" 6 "fine.match-witness"
      [("semantic_term", .text "term:0"), ("verified", .bool true), ("open_arms", .int 0),
        ("replacements", .array [])],
    holeDeclared 7, sampleEvent "run:0" 8 "synth.run.close" []]

/-- The validator accepts a run without a match whose hole no arm closes, and a match run with a
hole after the match witness, which no arm closes and the witness does not replace. -/
theorem validate_openHole :
    validate Digest.sample sampleSource openHole = .ok ⟨5, 1, 0, 0⟩ ∧
      idsOf .hole openHole = ["hole:0"] ∧ closedHoles openHole = [] ∧
    validate Digest.sample sampleSource lateHole = .ok ⟨9, 1, 1, 0⟩ ∧
      lateHole.any opens = true ∧ idsOf .hole lateHole = ["hole:0"] ∧ closedHoles lateHole = [] ∧
      (dataOfKind .witness lateHole).map
        (fun data => Replay.replacedHoles (data.get "replacements").items) = [[]] := by
  decide +kernel

/-- Accepted replays are not continued: only the last event ends the run. -/
theorem WellFormed.append_eq {other : Bytes} {more : List Json}
    (formed : WellFormed digest source events)
    (longer : WellFormed digest other (events ++ more)) : more = [] := by
  have nonempty : 0 < events.length := length_pos_of_ne_nil (ne_nil_of_envelope formed.run)
  have last : events[events.length - 1]? = some _ :=
    List.getElem?_eq_getElem (Nat.sub_one_lt_of_lt nonempty)
  have here := (formed.closes _ _ last).mpr (Nat.sub_add_cancel nonempty)
  have there := (longer.closes (events.length - 1) _ (by
    rw [List.getElem?_append_left (Nat.sub_one_lt_of_lt nonempty), last])).mp here
  rw [length_append] at there
  exact length_eq_zero_iff.mp (by omega)

/-- There is a snapshot, which is one of every source the replay is of. -/
theorem WellFormed.exists_snapshot (formed : WellFormed digest source events) :
    ∃ data, ∀ other, WellFormed digest other events → ∃ earlier,
      SnapshotFormed digest other earlier data := by
  obtain ⟨data, member⟩ := exists_mem_of_length_pos (formed.snapshot ▸ Nat.zero_lt_one)
  rw [← take_length (l := events)] at member
  obtain ⟨place, event, -, found, kind, rfl⟩ := mem_dataOfKind_take member
  refine ⟨dataOf event, fun other formed => ⟨events.take place, ?_⟩⟩
  have data := (formed.each place event found).data
  rwa [DataFormed, kind] at data

/-- An accepted replay is complete and of one source: no events can be cut off its end or put after
it, and all sources it is accepted for have one length and hash. -/
theorem validate_final {digest : Digest} {source other : Bytes} {events more : List Json}
    {counts counts' : Counts} (accepted : validate digest source events = .ok counts)
    (longer : validate digest other (events ++ more) = .ok counts') :
    more = [] ∧ other.length = source.length ∧ digest.identity other = digest.identity source := by
  have formed := (validate_ok_iff.mp ⟨counts, accepted⟩).wellFormed
  have formed' := (validate_ok_iff.mp ⟨counts', longer⟩).wellFormed
  obtain rfl := formed.append_eq formed'
  rw [append_nil] at formed'
  obtain ⟨data, snapshot⟩ := formed.exists_snapshot
  obtain ⟨_, first⟩ := snapshot source formed
  obtain ⟨_, second⟩ := snapshot other formed'
  have lengths := Json.isNumber_unique second.byteLength first.byteLength
  have hashes := second.hash.symm.trans first.hash
  exact ⟨rfl, Int.ofNat_inj.mp lengths, Json.text.inj hashes⟩

/-- The sample digest reads only the length of a source. -/
theorem validate_final_openHole :
    validate Digest.sample sampleSource openHole = .ok ⟨5, 1, 0, 0⟩ ∧
    validate Digest.sample [120, 61, 50] (openHole ++ []) = .ok ⟨5, 1, 0, 0⟩ ∧
    ([120, 61, 50] : Bytes).length = sampleSource.length ∧
    Digest.sample.identity [120, 61, 50] = Digest.sample.identity sampleSource := by
  have accepted : validate Digest.sample sampleSource openHole = .ok ⟨5, 1, 0, 0⟩ := by
    decide +kernel
  have other : validate Digest.sample [120, 61, 50] (openHole ++ []) = .ok ⟨5, 1, 0, 0⟩ := by
    decide +kernel
  exact ⟨accepted, other, (validate_final accepted other).2⟩

end Fine.Rainfall
