import Fine.Rainfall.Projection
import Mathlib

/-!
# What the validator accepts

The validator's state is a function of the events it has read, and its checks are conditions on
that. `validate_ok_iff` says the same of a whole run.
-/

namespace Fine.Rainfall

open List

variable {α : Type} {condition : Bool} {message : String}

@[simp] theorem require_bind_ok {next : Unit → Except String α} {result : α} :
    (require condition message >>= next) = .ok result ↔
      condition = true ∧ next () = .ok result := by
  cases condition
  · simp only [require, Bool.false_eq_true, if_false, false_and, iff_false]
    intro same
    cases same
  · simp only [require, if_true, true_and]
    rfl

@[simp] theorem require_ok {result : Unit} :
    require condition message = .ok result ↔ condition = true := by
  cases condition
  · simp only [require, Bool.false_eq_true, if_false, iff_false]
    intro same
    cases same
  · simp only [require, if_true, iff_true]
    rfl

theorem bind_ok_iff {β : Type} {first : Except String α} {second : α → Except String β}
    {result : β} :
    (first >>= second) = .ok result ↔ ∃ value, first = .ok value ∧ second value = .ok result := by
  cases first with
  | error message =>
    constructor
    · intro same
      cases same
    · rintro ⟨_, found, _⟩
      cases found
  | ok value =>
    constructor
    · intro same
      exact ⟨value, rfl, same⟩
    · rintro ⟨found, same, run⟩
      cases same
      exact run

theorem unit_bind_ok {first : Except String Unit} {second : Unit → Except String α} {result : α} :
    (first >>= second) = .ok result ↔ first = .ok () ∧ second () = .ok result := by
  rw [bind_ok_iff]
  exact ⟨fun ⟨_, found, run⟩ => ⟨found, run⟩, fun both => ⟨(), both⟩⟩

@[simp] theorem pure_ok_iff {value result : α} :
    (pure value : Except String α) = .ok result ↔ value = result := by
  constructor
  · intro same
    exact Except.ok.inj same
  · intro same
    rw [same]
    rfl

def operationOf (event : Json) : String := (event.get "operation").str

def dataOf (event : Json) : Json := event.get "data"

/-- Identity of an event. -/
def idOf (event : Json) : String := (event.get "event_id").str

/-- The event ends a run. -/
def ends (event : Json) : Bool := Replay.isTerminal (operationOf event) (dataOf event)

def opens (event : Json) : Bool := Replay.opensMatch (operationOf event) (dataOf event)

def ofKind (kind : Operation) (events : List Json) : List Json :=
  events.filter fun event => decide (Operation.of (operationOf event) = kind)

def dataOfKind (kind : Operation) (events : List Json) : List Json := (ofKind kind events).map dataOf

def Replay.of (events : List Json) : Replay where
  documents := (dataOfKind .document events).map fun data => (data.get "id").str
  snapshots := (dataOfKind .snapshot events).map fun data =>
    ((data.get "id").str, data.get "identity")
  sourceNodes := (dataOfKind .node events).map fun data => ((data.get "id").str, data)
  parseNodeIds := (dataOfKind .node events).map fun data =>
    (data.get "parse_local_node_id").integer
  terms := (dataOfKind .term events).map fun data => ((data.get "id").str, data)
  holes := (dataOfKind .hole events).map fun data => ((data.get "id").str, data)
  armWitnesses := (dataOfKind .arm events).map fun data => ((data.get "hole").str, data)
  termHandles := (dataOfKind .term events).map fun data =>
    ((data.get "identity").get "handle").integer
  termLiftValidations := (dataOfKind .lift events).map fun data => (data.get "term").str
  eventsById := events.map fun event => (idOf event, event)
  evidence := dataOfKind .evidence events
  terminalSequence := events.findIdx? ends
  matchRun := events.any opens
  matchWitnessCount := (ofKind .witness events).length

namespace Replay

/-- A document is declared once, with a name to show. -/
@[mk_iff] structure DocumentAccepted (replay : Replay) (data : Json) : Prop where
  text : (data.get "id").isText = true
  fresh : (data.get "id").str ∉ replay.documents
  shown : (data.get "display_name").isText = true

/-- A new snapshot of a declared document, with the source's length and hash. -/
@[mk_iff] structure SnapshotAccepted (digest : Digest) (source : Bytes) (replay : Replay)
    (data : Json) : Prop where
  text : (data.get "id").isText = true
  fresh : (data.get "id").str ∉ keys replay.snapshots
  object : (data.get "identity").isObject = true
  document : ((data.get "identity").get "document").isIn replay.documents = true
  revision : ((data.get "identity").get "revision").isNatural = true
  byteLength : ((data.get "identity").get "byte_length").isNumber source.length = true
  hash : (data.get "identity").get "exact_source_hash" = .text (digest.identity source)

/-- A new source node in a declared snapshot, inside the source. -/
@[mk_iff] structure NodeAccepted (source : Bytes) (replay : Replay) (data : Json) : Prop where
  text : (data.get "id").isText = true
  fresh : (data.get "id").str ∉ keys replay.sourceNodes
  snapshot : (data.get "snapshot").isIn (keys replay.snapshots) = true
  natural : (data.get "parse_local_node_id").isNatural = true
  freshNode : (data.get "parse_local_node_id").integer ∉ replay.parseNodeIds
  span : (data.get "span").isObject = true
  start : ((data.get "span").get "begin").isObject = true
  stop : ((data.get "span").get "end").isObject = true
  kind : (data.get "syntax_kind").isName = true
  startInt : (offset (data.get "span") "begin").isInt = true
  stopInt : (offset (data.get "span") "end").isInt = true
  inside : 0 ≤ (offset (data.get "span") "begin").integer ∧
    (offset (data.get "span") "begin").integer ≤ (offset (data.get "span") "end").integer ∧
    (offset (data.get "span") "end").integer ≤ source.length

def sortNames (data : Json) : List String :=
  (data.get "sort_bindings").items.map fun item => (item.get "name").str

/-- A new term of this run, with its rendering, hash and bindings. -/
@[mk_iff] structure TermAccepted (digest : Digest) (envelope : Envelope) (replay : Replay)
    (data : Json) : Prop where
  text : (data.get "id").isText = true
  fresh : (data.get "id").str ∉ keys replay.terms
  object : (data.get "identity").isObject = true
  sameRun : envelope.matches_ (data.get "identity") = true
  natural : ((data.get "identity").get "handle").isNatural = true
  freshHandle : ((data.get "identity").get "handle").integer ∉ replay.termHandles
  representation : data.get "representation" = .text "fine.generated-term.v1"
  origin : (data.get "origin").isName = true
  rendering : (data.get "text").isName = true
  hash : data.get "rendering_hash" =
    .text (digest.identity (Utf8.encode (data.get "text").str))
  diagnostic : (data.get "z3_text_diagnostic").isText = true
  pending : data.get "exact_reify_validation" = .text "pending"
  sorts : (data.get "sort_bindings").isArray = true
  declarations : (data.get "declaration_bindings").isArray = true
  sortAliases : aliases (data.get "sort_bindings") = true
  sortBindings : (data.get "sort_bindings").items.all sortBinding = true
  declarationAliases : aliases (data.get "declaration_bindings") = true
  declarationBindings : (data.get "declaration_bindings").items.all
    (declarationBinding (sortNames data)) = true

/-- A declared term is validated once, exactly, with its hash. -/
@[mk_iff] structure LiftAccepted (replay : Replay) (data : Json) : Prop where
  term : (data.get "term").isIn (keys replay.terms) = true
  once : (data.get "term").str ∉ replay.termLiftValidations
  exact : (data.get "parse_reify_exact_identity").isTrue = true
  hash : data.get "rendering_hash" =
    .text ((find replay.terms (data.get "term")).get "rendering_hash").str

/-- A new hole, at one of the snapshot, over declared terms. -/
@[mk_iff] structure HoleAccepted (replay : Replay) (data : Json) : Prop where
  text : (data.get "id").isText = true
  fresh : (data.get "id").str ∉ keys replay.holes
  snapshot : (data.get "snapshot").isIn (keys replay.snapshots) = true
  source : (data.get "source").isIn (keys replay.sourceNodes) = true
  same : data.get "snapshot" =
    .text ((find replay.sourceNodes (data.get "source")).get "snapshot").str
  kind : (find replay.sourceNodes (data.get "source")).get "syntax_kind" = .text "expr.hole"
  name : (data.get "name").isName = true
  type : data.get "expected_type" = .text "Int"
  grammar : data.get "grammar" = .text "fine.qf-lia-int.v1"
  inputs : (data.get "grammar_inputs").isArray = true
  terms : ∀ item ∈ (data.get "grammar_inputs").items, item.isIn (keys replay.terms) = true

/-- A declared hole is closed once, by a verified arm. -/
@[mk_iff] structure ArmAccepted (replay : Replay) (data : Json) : Prop where
  hole : (data.get "hole").isIn (keys replay.holes) = true
  once : (data.get "hole").str ∉ keys replay.armWitnesses
  name : (data.get "constructor").isName = true
  body : (data.get "body").isName = true
  term : (data.get "semantic_term").isIn (keys replay.terms) = true
  verified : data.get "status" = .text "verified"

/-- A replacement is the body of the arm that closed its hole, at its span. -/
@[mk_iff] structure ReplacementAccepted (replay : Replay) (replacement : Json) : Prop where
  object : replacement.isObject = true
  fields : replacement.hasKeys ["hole", "from", "to", "insert"] = true
  hole : (replacement.get "hole").isIn (keys replay.holes) = true
  start : (replacement.get "from").isInt = true
  stop : (replacement.get "to").isInt = true
  insert : (replacement.get "insert").isName = true
  atStart : (offset (replay.holeSpan (replacement.get "hole")) "begin").isNumber
    (replacement.get "from").integer = true
  atStop : (offset (replay.holeSpan (replacement.get "hole")) "end").isNumber
    (replacement.get "to").integer = true
  closed : (replacement.get "hole").isIn (keys replay.armWitnesses) = true
  body : (find replay.armWitnesses (replacement.get "hole")).get "body" =
    .text (replacement.get "insert").str

def replacedHoles (replacements : List Json) : List String :=
  replacements.map fun item => (item.get "hole").str

/-- The one witness of a match run replaces every hole, in order. -/
@[mk_iff] structure WitnessAccepted (replay : Replay) (data : Json) : Prop where
  matchRun : replay.matchRun = true
  first : replay.matchWitnessCount = 0
  term : (data.get "semantic_term").isIn (keys replay.terms) = true
  verified : (data.get "verified").isTrue = true
  array : (data.get "replacements").isArray = true
  count : (data.get "open_arms").isNumber (data.get "replacements").items.length = true
  each : ∀ replacement ∈ (data.get "replacements").items, replay.ReplacementAccepted replacement
  distinct : (replacedHoles (data.get "replacements").items).Nodup
  ordered : rangesOrdered ((data.get "replacements").items.map range) = true
  all : ∀ hole, hole ∈ replacedHoles (data.get "replacements").items ↔ hole ∈ keys replay.holes
  closed : ∀ hole, hole ∈ keys replay.armWitnesses ↔ hole ∈ keys replay.holes

/-- The clause names an earlier event that accepted the instance. -/
@[mk_iff] structure InstanceAccepted (replay : Replay) (eventId : String) (data : Json) :
    Prop where
  event : (data.get "quantifier_instance_event").isIn (keys replay.eventsById) = true
  earlier : (data.get "quantifier_instance_event").str ≠ eventId
  accepted : ((find replay.eventsById (data.get "quantifier_instance_event")).get "operation" =
      .text "z3.mbqi-instance") ∨
    (find replay.eventsById (data.get "quantifier_instance_event")).get "operation" =
      .text "z3.quantifier-instance"
  quantifier : (data.get "quantifier").isIn (keys replay.terms) = true
  instance_ : (data.get "instance").isIn (keys replay.terms) = true
  sameQuantifier : ((find replay.eventsById (data.get "quantifier_instance_event")).get
    "data").get "quantifier" = .text (data.get "quantifier").str
  sameInstance : ((find replay.eventsById (data.get "quantifier_instance_event")).get
    "data").get "instance" = .text (data.get "instance").str
  bindings : (data.get "ground_bindings").isArray = true
  terms : ∀ binding ∈ (data.get "ground_bindings").items,
    binding.isIn (keys replay.terms) = true
  relation : data.get "relation" = .text "accepted-instance-became-admitted-clause"

/-- A clause is over declared terms. -/
@[mk_iff] structure ClauseAccepted (replay : Replay) (eventId operation : String) (data : Json) :
    Prop where
  hint : (data.get "proof_hint").isIn (keys replay.terms) = true
  array : (data.get "literals").isArray = true
  literals : ∀ literal ∈ (data.get "literals").items, literal.isIn (keys replay.terms) = true
  count : (data.get "literal_count").isNumber (data.get "literals").items.length = true
  dependencies : (data.get "dependency_indices").isArray = true
  indices : ∀ index ∈ (data.get "dependency_indices").items, index.isNatural = true
  instances : isInstance operation data = true → replay.InstanceAccepted eventId data

/-- The condition on the data of an event of each kind. -/
def DataAccepted (digest : Digest) (source : Bytes) (envelope : Envelope) (replay : Replay)
    (eventId operation : String) (data : Json) : Prop :=
  match Operation.of operation with
  | .document => replay.DocumentAccepted data
  | .snapshot => replay.SnapshotAccepted digest source data
  | .node => replay.NodeAccepted source data
  | .term => replay.TermAccepted digest envelope data
  | .lift => replay.LiftAccepted data
  | .hole => replay.HoleAccepted data
  | .arm => replay.ArmAccepted data
  | .witness => replay.WitnessAccepted data
  | .evidence => True
  | .clause => replay.ClauseAccepted eventId operation data
  | .other => True

def declare (replay : Replay) (operation : String) (data : Json) : Replay :=
  match Operation.of operation with
  | .document => { replay with documents := replay.documents ++ [(data.get "id").str] }
  | .snapshot => { replay with
      snapshots := replay.snapshots ++ [((data.get "id").str, data.get "identity")] }
  | .node => { replay with
      sourceNodes := replay.sourceNodes ++ [((data.get "id").str, data)]
      parseNodeIds := replay.parseNodeIds ++ [(data.get "parse_local_node_id").integer] }
  | .term => { replay with
      terms := replay.terms ++ [((data.get "id").str, data)]
      termHandles := replay.termHandles ++ [((data.get "identity").get "handle").integer] }
  | .lift => { replay with
      termLiftValidations := replay.termLiftValidations ++ [(data.get "term").str] }
  | .hole => { replay with holes := replay.holes ++ [((data.get "id").str, data)] }
  | .arm => { replay with
      armWitnesses := replay.armWitnesses ++ [((data.get "hole").str, data)] }
  | .witness => { replay with matchWitnessCount := replay.matchWitnessCount + 1 }
  | .evidence => { replay with evidence := replay.evidence ++ [data] }
  | .clause => replay
  | .other => replay

variable {digest : Digest} {source : Bytes} {envelope : Envelope} {replay later : Replay}
  {place eventId operation : String} {data : Json}

theorem declareDocument_ok :
    replay.declareDocument place data = .ok later ↔ replay.DocumentAccepted data ∧
      { replay with documents := replay.documents ++ [(data.get "id").str] } = later := by
  simp only [declareDocument, require_bind_ok, pure_ok_iff, documentAccepted_iff,
    Bool.and_eq_true, Bool.not_eq_true', ← Bool.not_eq_true, Json.isIn_iff, not_and]
  tauto

theorem declareSnapshot_ok :
    replay.declareSnapshot digest source place data = .ok later ↔
      replay.SnapshotAccepted digest source data ∧ { replay with
        snapshots := replay.snapshots ++ [((data.get "id").str, data.get "identity")] } =
          later := by
  simp only [declareSnapshot, require_bind_ok, pure_ok_iff, snapshotAccepted_iff,
    Bool.and_eq_true, Bool.not_eq_true', ← Bool.not_eq_true, Json.isIn_iff, Json.isString_iff,
    not_and]
  tauto

theorem declareNode_ok :
    replay.declareNode source place data = .ok later ↔ replay.NodeAccepted source data ∧
      { replay with
        sourceNodes := replay.sourceNodes ++ [((data.get "id").str, data)]
        parseNodeIds := replay.parseNodeIds ++ [(data.get "parse_local_node_id").integer] } =
          later := by
  simp only [declareNode, require_bind_ok, pure_ok_iff, nodeAccepted_iff, Bool.and_eq_true,
    Bool.not_eq_true', ← Bool.not_eq_true, Json.isIn_iff, not_and, contains_iff_mem,
    decide_eq_true_eq]
  tauto

theorem declareTerm_ok :
    replay.declareTerm digest envelope place data = .ok later ↔
      replay.TermAccepted digest envelope data ∧ { replay with
        terms := replay.terms ++ [((data.get "id").str, data)]
        termHandles := replay.termHandles ++ [((data.get "identity").get "handle").integer] } =
          later := by
  simp only [declareTerm, require_bind_ok, pure_ok_iff, termAccepted_iff, Bool.and_eq_true,
    Bool.not_eq_true', ← Bool.not_eq_true, Json.isIn_iff, Json.isString_iff, not_and,
    contains_iff_mem, sortNames]
  tauto

theorem validateLift_ok :
    replay.validateLift place data = .ok later ↔ replay.LiftAccepted data ∧ { replay with
      termLiftValidations := replay.termLiftValidations ++ [(data.get "term").str] } =
        later := by
  simp only [validateLift, require_bind_ok, pure_ok_iff, liftAccepted_iff, Bool.and_eq_true,
    Bool.not_eq_true', ← Bool.not_eq_true, Json.isIn_iff, Json.isString_iff, not_and]
  tauto

theorem declareHole_ok :
    replay.declareHole place data = .ok later ↔ replay.HoleAccepted data ∧
      { replay with holes := replay.holes ++ [((data.get "id").str, data)] } = later := by
  simp only [declareHole, require_bind_ok, pure_ok_iff, holeAccepted_iff, Bool.and_eq_true,
    Bool.not_eq_true', ← Bool.not_eq_true, Json.isIn_iff, Json.isString_iff, not_and,
    all_eq_true]
  tauto

theorem closeArm_ok :
    replay.closeArm place data = .ok later ↔ replay.ArmAccepted data ∧ { replay with
      armWitnesses := replay.armWitnesses ++ [((data.get "hole").str, data)] } = later := by
  simp only [closeArm, require_bind_ok, pure_ok_iff, armAccepted_iff, Bool.and_eq_true,
    Bool.not_eq_true', ← Bool.not_eq_true, Json.isIn_iff, Json.isString_iff, not_and]
  tauto

variable {named : List String} {event : Json} {earlier : List Json}

theorem checkReplacement_ok {replacement : Json} :
    replay.checkReplacement place named replacement = .ok () ↔
      replay.ReplacementAccepted replacement ∧ (replacement.get "hole").str ∉ named := by
  simp only [checkReplacement, require_bind_ok, require_ok, replacementAccepted_iff,
    Bool.and_eq_true, Bool.not_eq_true', ← Bool.not_eq_true, Json.isIn_iff, Json.isString_iff,
    not_and]
  tauto

theorem checkReplacements_ok {replacements : List Json} :
    replay.checkReplacements place named replacements = .ok () ↔
      (∀ replacement ∈ replacements, replay.ReplacementAccepted replacement) ∧
        (replacedHoles replacements).Nodup ∧
        ∀ hole ∈ replacedHoles replacements, hole ∉ named := by
  induction replacements generalizing named with
  | nil => simp [checkReplacements, replacedHoles]
  | cons replacement rest ih =>
    rw [checkReplacements, unit_bind_ok]
    simp only [checkReplacement_ok, ih, replacedHoles, map_cons,
      nodup_cons, mem_cons, mem_append, forall_eq_or_imp, not_mem_nil,
      or_false, not_or]
    constructor
    · rintro ⟨⟨accepted, fresh⟩, each, distinct, apart⟩
      exact ⟨⟨accepted, each⟩, ⟨fun again => (apart _ again).2 rfl, distinct⟩, fresh,
        fun hole found => (apart hole found).1⟩
    · rintro ⟨⟨accepted, each⟩, ⟨absent, distinct⟩, fresh, apart⟩
      refine ⟨⟨accepted, fresh⟩, each, distinct, fun hole found => ⟨apart hole found, ?_⟩⟩
      rintro rfl
      exact absent found

theorem sameMembers_iff {first second : List String} :
    sameMembers first second = true ↔ ∀ name, name ∈ first ↔ name ∈ second := by
  simp only [sameMembers, Bool.and_eq_true, all_eq_true, contains_iff_mem]
  exact ⟨fun both name => ⟨both.1 name, both.2 name⟩,
    fun same => ⟨fun name => (same name).1, fun name => (same name).2⟩⟩

theorem matchWitness_ok :
    replay.matchWitness place data = .ok later ↔ replay.WitnessAccepted data ∧
      { replay with matchWitnessCount := replay.matchWitnessCount + 1 } = later := by
  simp only [matchWitness, pure_ok_iff, unit_bind_ok, checkReplacements_ok,
    witnessAccepted_iff, Bool.and_eq_true, beq_iff_eq, sameMembers_iff, not_mem_nil,
    not_false_eq_true, implies_true, and_true, replacedHoles, require_ok]
  tauto

theorem checkInstance_ok :
    replay.checkInstance place eventId data = .ok () ↔ replay.InstanceAccepted eventId data := by
  simp only [checkInstance, require_bind_ok, require_ok, instanceAccepted_iff, Bool.and_eq_true,
    Bool.or_eq_true, bne_iff_ne, Json.isString_iff, all_eq_true]
  tauto

theorem checkClause_ok :
    replay.checkClause place eventId operation data = .ok later ↔
      replay.ClauseAccepted eventId operation data ∧ replay = later := by
  simp only [checkClause, require_bind_ok, clauseAccepted_iff, Bool.and_eq_true, all_eq_true]
  by_cases records : isInstance operation data = true
  · simp only [records, if_true, unit_bind_ok, checkInstance_ok, pure_ok_iff, forall_const]
    tauto
  · simp only [records, if_false, Bool.false_eq_true, pure_ok_iff, false_implies]
    tauto

theorem apply_ok :
    replay.apply digest source envelope place eventId operation data = .ok later ↔
      replay.DataAccepted digest source envelope eventId operation data ∧
        replay.declare operation data = later := by
  rw [apply, DataAccepted, declare]
  cases Operation.of operation with
  | document => exact declareDocument_ok
  | snapshot => exact declareSnapshot_ok
  | node => exact declareNode_ok
  | term => exact declareTerm_ok
  | lift => exact validateLift_ok
  | hole => exact declareHole_ok
  | arm => exact closeArm_ok
  | witness => exact matchWitness_ok
  | evidence => simp
  | clause => exact checkClause_ok
  | other => simp

def after (replay : Replay) (sequence : Nat) (event : Json) : Replay :=
  let opened : Replay := { replay with
    eventsById := replay.eventsById ++ [(idOf event, event)]
    matchRun := replay.matchRun || opens event }
  let later := opened.declare (operationOf event) (dataOf event)
  { later with terminalSequence := if ends event then some sequence else later.terminalSequence }

/-- The condition on an event after others. -/
@[mk_iff] structure Accepted (digest : Digest) (source : Bytes) (envelope : Envelope)
    (replay : Replay) (sequence : Nat) (event : Json) : Prop where
  schema : event.get "schema" = .text "fine.rainfall.v2"
  number : (event.get "sequence").isNumber sequence = true
  sameRun : envelope.matches_ event = true
  text : (event.get "event_id").isText = true
  fresh : idOf event ∉ keys replay.eventsById
  array : (event.get "within").isArray = true
  scopes : ∀ scope ∈ (event.get "within").items, scope.isName = true
  running : replay.terminalSequence = none
  operation : (event.get "operation").isText = true
  object : (event.get "data").isObject = true
  data : DataAccepted digest source envelope
    { replay with
      eventsById := replay.eventsById ++ [(idOf event, event)]
      matchRun := replay.matchRun || opens event } (idOf event) (operationOf event) (dataOf event)

theorem step_ok {sequence : Nat} :
    step digest source envelope sequence event replay = .ok later ↔
      replay.Accepted digest source envelope sequence event ∧ replay.after sequence event = later := by
  simp only [step, require_bind_ok]
  simp only [bind_ok_iff, apply_ok, pure_ok_iff, accepted_iff, Bool.and_eq_true,
    Bool.not_eq_true', ← Bool.not_eq_true, Json.isIn_iff, Json.isString_iff, not_and,
    all_eq_true, Option.isNone_iff_eq_none, idOf, operationOf, dataOf, opens, ends, after]
  constructor
  · rintro ⟨schema, number, same, ⟨text, fresh⟩, ⟨array, scopes⟩, running, ⟨operation, object⟩,
      declared, ⟨accepted, rfl⟩, rfl⟩
    exact ⟨⟨schema, number, same, text, fresh text, array, scopes, running, operation, object,
      accepted⟩, rfl⟩
  · rintro ⟨⟨schema, number, same, text, fresh, array, scopes, running, operation, object,
      accepted⟩, rfl⟩
    exact ⟨schema, number, same, ⟨text, fun _ => fresh⟩, ⟨array, scopes⟩, running,
      ⟨operation, object⟩, _, ⟨accepted, rfl⟩, rfl⟩

theorem after_of (running : (Replay.of earlier).terminalSequence = none) :
    (Replay.of earlier).after earlier.length event = Replay.of (earlier ++ [event]) := by
  have before : earlier.findIdx? ends = none := running
  have last : (earlier ++ [event]).findIdx? ends =
      if ends event then some earlier.length else none := by
    rw [findIdx?_append, before]
    cases found : ends event <;> simp [found, findIdx?_cons]
  cases kind : Operation.of (operationOf event) <;>
    simp [after, declare, Replay.of, kind, dataOfKind, ofKind, last, before]

/-- The loop accepts events that each meet their condition. -/
theorem run_ok {rest : List Json} {final : Replay} :
    run digest source envelope earlier.length rest (Replay.of earlier) = .ok final ↔
      (∀ index event, rest[index]? = some event →
        (Replay.of (earlier ++ rest.take index)).Accepted digest source envelope
          (earlier.length + index) event) ∧ Replay.of (earlier ++ rest) = final := by
  induction rest generalizing earlier with
  | nil => simp [run]
  | cons event rest ih =>
    rw [run, bind_ok_iff]
    simp only [step_ok]
    constructor
    · rintro ⟨later, ⟨accepted, rfl⟩, run⟩
      have size : (earlier ++ [event]).length = earlier.length + 1 := by simp
      rw [after_of accepted.running, ← size, ih] at run
      obtain ⟨each, same⟩ := run
      refine ⟨?_, by simpa using same⟩
      intro index found at_
      cases index with
      | zero =>
        obtain rfl : event = found := by simpa using at_
        simpa using accepted
      | succ index =>
        have there := each index found (by simpa using at_)
        simpa [Nat.add_assoc, Nat.add_comm 1 index] using there
    · rintro ⟨each, same⟩
      have accepted : (Replay.of earlier).Accepted digest source envelope earlier.length event := by
        simpa using each 0 event rfl
      refine ⟨_, ⟨accepted, rfl⟩, ?_⟩
      have size : (earlier ++ [event]).length = earlier.length + 1 := by simp
      rw [after_of accepted.running, ← size, ih]
      refine ⟨?_, by simpa using same⟩
      intro index found at_
      have there := each (index + 1) found (by simpa using at_)
      simpa [Nat.add_assoc, Nat.add_comm 1 index] using there

/-- An edge joins a declared term to a declared node, or to the solver. -/
@[mk_iff] structure EdgeAccepted (replay : Replay) (edge : Json) : Prop where
  correspondence : (edge.get "correspondence").isIn
    ["exact", "desugared", "generated", "internal_z3"] = true
  term : (edge.get "term").isIn (keys replay.terms) = true
  internal : edge.get "correspondence" = .text "internal_z3" → (edge.get "source").isNull = true
  source : edge.get "correspondence" ≠ .text "internal_z3" →
    (edge.get "source").isIn (keys replay.sourceNodes) = true
  snapshot : edge.get "correspondence" ≠ .text "internal_z3" → edge.get "snapshot" =
    .text ((find replay.sourceNodes (edge.get "source")).get "snapshot").str

theorem checkEdge_ok {edge : Json} :
    replay.checkEdge place edge = .ok () ↔ replay.EdgeAccepted edge := by
  simp only [checkEdge, require_bind_ok, edgeAccepted_iff]
  by_cases internal : edge.get "correspondence" = .text "internal_z3"
  · simp [internal, Json.isString_iff]
  · have other : ¬ (edge.get "correspondence").isString "internal_z3" = true :=
      fun same => internal (Json.isString_iff.mp same)
    simp only [other, if_false, Bool.false_eq_true, require_bind_ok, require_ok, internal,
      Json.isString_iff, ne_eq, not_false_eq_true, forall_const, false_implies, true_and]

theorem checkEdges_ok {index : Nat} {edges : List Json} :
    replay.checkEdges index edges = .ok () ↔ ∀ edge ∈ edges, replay.EdgeAccepted edge := by
  induction edges generalizing index with
  | nil => simp [checkEdges]
  | cons edge edges ih =>
    rw [checkEdges, unit_bind_ok, checkEdge_ok, ih]
    simp

/-- The conditions left for the end of a run. -/
@[mk_iff] structure Finished (replay : Replay) (count : Nat) : Prop where
  document : replay.documents.length = 1
  snapshot : replay.snapshots.length = 1
  terminal : replay.terminalSequence = some (count - 1)
  validated : ∀ term, term ∈ replay.termLiftValidations ↔ term ∈ keys replay.terms
  witness : replay.matchRun = true → replay.matchWitnessCount = 1
  edges : ∀ edge ∈ replay.evidence, replay.EdgeAccepted edge

theorem finish_ok {count : Nat} : replay.finish count = .ok () ↔ replay.Finished count := by
  simp only [finish, require_bind_ok, checkEdges_ok, finished_iff, beq_iff_eq, sameMembers_iff,
    Bool.or_eq_true, Bool.not_eq_true']
  cases replay.matchRun <;> simp

end Replay

/-- A complete replay whose events each meet the condition of their kind against those before. -/
structure ReplayAccepted (digest : Digest) (source : Bytes) (events : List Json) : Prop where
  run : (((events.headD .null).get "run").isName) = true
  recorder : (((events.headD .null).get "recorder").isName) = true
  manager : (((events.headD .null).get "manager").isName) = true
  each : ∀ index event, events[index]? = some event →
    (Replay.of (events.take index)).Accepted digest source (envelopeOf events) index event
  finished : (Replay.of events).Finished events.length

theorem validate_ok_iff {digest : Digest} {source : Bytes} {events : List Json} :
    (∃ counts, validate digest source events = .ok counts) ↔
      ReplayAccepted digest source events := by
  have loop (final : Replay) :
      Replay.run digest source (envelopeOf events) ([] : List Json).length events (Replay.of []) =
        .ok final ↔ _ := Replay.run_ok
  have initial : Replay.initial = Replay.of [] := rfl
  simp only [nil_append, length_nil, Nat.zero_add] at loop
  simp only [validate, require_bind_ok, initial]
  simp only [bind_ok_iff, loop, Bool.and_eq_true]
  constructor
  · rintro ⟨counts, ⟨⟨run, recorder⟩, manager⟩, final, ⟨each, rfl⟩, _, finished, _⟩
    exact ⟨run, recorder, manager, each, Replay.finish_ok.mp finished⟩
  · intro accepted
    exact ⟨_, ⟨⟨accepted.run, accepted.recorder⟩, accepted.manager⟩, _, ⟨accepted.each, rfl⟩,
      (), Replay.finish_ok.mpr accepted.finished, rfl⟩

end Fine.Rainfall
