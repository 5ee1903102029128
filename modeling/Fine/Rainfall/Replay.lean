import Fine.Library.Utf8
import Fine.Rainfall.Json

/-!
# Validation of a replay

`validate` reads the events in order and keeps what they declare; the first check that fails names
the event. A value that cannot be a key fails the check it stands in.
-/

namespace Fine.Rainfall

/-- Bytes of a file. -/
abbrev Bytes := List UInt8

/-- SHA-256, written in hexadecimal digits. -/
structure Digest where
  hex : Bytes → String
  length_hex : ∀ bytes, (hex bytes).length = 64
  /-- The digits are lower-case hexadecimal. -/
  hex_digits : ∀ bytes, (hex bytes).toList.all (fun digit => "0123456789abcdef".toList.contains digit)

def Digest.identity (digest : Digest) (bytes : Bytes) : String := "sha256:" ++ digest.hex bytes

/-- Fails with a message unless a condition holds. -/
def require (condition : Bool) (message : String) : Except String Unit :=
  if condition then pure () else throw message

/-- Run, recorder and manager of an event. -/
structure Envelope where
  run : String
  recorder : String
  manager : String
deriving DecidableEq

/-- The three fields of a value are those of the envelope. -/
def Envelope.matches_ (envelope : Envelope) (value : Json) : Bool :=
  (value.get "run").isString envelope.run && (value.get "recorder").isString envelope.recorder &&
    (value.get "manager").isString envelope.manager

/-- Kinds of events that the validator tells apart. -/
inductive Operation where
  | document
  | snapshot
  | node
  | term
  | lift
  | hole
  | arm
  | witness
  | evidence
  | clause
  | other
deriving DecidableEq

def Operation.of (name : String) : Operation :=
  if name = "source.document.declare" then .document
  else if name = "source.snapshot.declare" then .snapshot
  else if name = "source.node.declare" then .node
  else if name = "term.declare" then .term
  else if name = "term.lift.validate" then .lift
  else if name = "synth.hole.declare" then .hole
  else if name = "synth.arm.close" then .arm
  else if name = "fine.match-witness" then .witness
  else if name = "source.term.evidence" then .evidence
  else if "z3.clause.".toList.isPrefixOf name.toList then .clause
  else .other

/-- What the events so far have declared. -/
structure Replay where
  documents : List String
  snapshots : List (String × Json)
  sourceNodes : List (String × Json)
  parseNodeIds : List Int
  terms : List (String × Json)
  holes : List (String × Json)
  armWitnesses : List (String × Json)
  termHandles : List Int
  termLiftValidations : List String
  eventsById : List (String × Json)
  evidence : List Json
  terminalSequence : Option Nat
  matchRun : Bool
  matchWitnessCount : Nat

def Replay.initial : Replay := ⟨[], [], [], [], [], [], [], [], [], [], [], none, false, 0⟩

/-- Keys of a dictionary. -/
def keys (entries : List (String × Json)) : List String := entries.map Prod.fst

def find (entries : List (String × Json)) (key : Json) : Json :=
  (entries.lookup key.str).getD .null

def offset (span : Json) (side : String) : Json := (span.get side).get "offset"

namespace Replay

/-- `source.document.declare` -/
def declareDocument (replay : Replay) (at_ : String) (data : Json) : Except String Replay := do
  let document := data.get "id"
  require (document.isText && !document.isIn replay.documents)
    (at_ ++ "missing or reused document ID")
  require (data.get "display_name").isText (at_ ++ "malformed document display name")
  return { replay with documents := replay.documents ++ [document.str] }

/-- `source.snapshot.declare` -/
def declareSnapshot (digest : Digest) (source : Bytes) (replay : Replay) (at_ : String)
    (data : Json) : Except String Replay := do
  let snapshot := data.get "id"
  let identity := data.get "identity"
  require (snapshot.isText && !snapshot.isIn (keys replay.snapshots))
    (at_ ++ "missing or reused snapshot ID")
  require identity.isObject (at_ ++ "malformed snapshot identity")
  require ((identity.get "document").isIn replay.documents)
    (at_ ++ "snapshot names an unknown document")
  require (identity.get "revision").isNatural (at_ ++ "invalid snapshot revision")
  require ((identity.get "byte_length").isNumber source.length)
    (at_ ++ "source byte length does not match snapshot")
  require ((identity.get "exact_source_hash").isString (digest.identity source))
    (at_ ++ "source hash does not match snapshot")
  return { replay with snapshots := replay.snapshots ++ [(snapshot.str, identity)] }

/-- `source.node.declare` -/
def declareNode (source : Bytes) (replay : Replay) (at_ : String) (data : Json) :
    Except String Replay := do
  let id := data.get "id"
  let node := data.get "parse_local_node_id"
  let span := data.get "span"
  require (id.isText && !id.isIn (keys replay.sourceNodes))
    (at_ ++ "missing or reused source node ID")
  require ((data.get "snapshot").isIn (keys replay.snapshots))
    (at_ ++ "source node names an unknown snapshot")
  require (node.isNatural && !replay.parseNodeIds.contains node.integer)
    (at_ ++ "missing or reused parse-local node ID")
  require (span.isObject && (span.get "begin").isObject && (span.get "end").isObject)
    (at_ ++ "malformed source span")
  require (data.get "syntax_kind").isName (at_ ++ "malformed source syntax kind")
  let start := offset span "begin"
  let stop := offset span "end"
  require (start.isInt && stop.isInt &&
      decide (0 ≤ start.integer ∧ start.integer ≤ stop.integer ∧ stop.integer ≤ source.length))
    (at_ ++ "source span is outside the snapshot")
  return { replay with
    sourceNodes := replay.sourceNodes ++ [(id.str, data)]
    parseNodeIds := replay.parseNodeIds ++ [node.integer] }

/-- Aliases of the bindings of a lift: named, each once. -/
def aliases (bindings : Json) : Bool :=
  bindings.items.all Json.isObject && bindings.items.all (fun item => (item.get "name").isName) &&
    decide (bindings.items.map fun item => (item.get "name").str).Nodup

/-- A sort binding of a lift. -/
def sortBinding (item : Json) : Bool :=
  (item.get "z3_text").isText && (item.get "sort_kind").isInt &&
    (item.get "ast_id_at_observation").isInt

/-- A declaration binding over the aliases of its sorts. -/
def declarationBinding (sorts : List String) (item : Json) : Bool :=
  (item.get "z3_symbol").isText && (item.get "z3_declaration_text").isText &&
    (item.get "decl_kind").isInt && (item.get "parameters").isArray &&
    (item.get "parameters").items.all Json.isText && (item.get "ast_id_at_observation").isInt &&
    (item.get "domain").isArray && (item.get "domain").items.all (fun sort => sort.isIn sorts) &&
    (item.get "range").isIn sorts

/-- `term.declare` -/
def declareTerm (digest : Digest) (envelope : Envelope)
    (replay : Replay) (at_ : String) (data : Json) : Except String Replay := do
  let term := data.get "id"
  let identity := data.get "identity"
  let handle := identity.get "handle"
  require (term.isText && !term.isIn (keys replay.terms)) (at_ ++ "missing or reused term ID")
  require identity.isObject (at_ ++ "malformed term identity")
  require (envelope.matches_ identity) (at_ ++ "term identity crosses its event envelope")
  require (handle.isNatural && !replay.termHandles.contains handle.integer)
    (at_ ++ "missing or reused live term handle")
  require ((data.get "representation").isString "fine.generated-term.v1")
    (at_ ++ "term has no canonical Fine rendering")
  require (data.get "origin").isName (at_ ++ "malformed term provenance")
  require (data.get "text").isName (at_ ++ "malformed generated Fine term text")
  require ((data.get "rendering_hash").isString (digest.identity (Utf8.encode (data.get "text").str)))
    (at_ ++ "generated Fine term hash disagrees with text")
  require (data.get "z3_text_diagnostic").isText (at_ ++ "malformed diagnostic Z3 term text")
  require ((data.get "exact_reify_validation").isString "pending")
    (at_ ++ "term declaration bypasses deferred exact validation")
  let sorts := data.get "sort_bindings"
  let declarations := data.get "declaration_bindings"
  require (sorts.isArray && declarations.isArray) (at_ ++ "malformed Fine lift bindings")
  require (aliases sorts) (at_ ++ "missing or reused Fine sort alias")
  require (sorts.items.all sortBinding) (at_ ++ "malformed Fine sort binding")
  require (aliases declarations) (at_ ++ "missing or reused Fine declaration alias")
  require (declarations.items.all
      (declarationBinding (sorts.items.map fun item => (item.get "name").str)))
    (at_ ++ "malformed Fine declaration binding")
  return { replay with
    terms := replay.terms ++ [(term.str, data)]
    termHandles := replay.termHandles ++ [handle.integer] }

/-- `term.lift.validate` -/
def validateLift (replay : Replay) (at_ : String) (data : Json) : Except String Replay := do
  let term := data.get "term"
  require (term.isIn (keys replay.terms) && !term.isIn replay.termLiftValidations)
    (at_ ++ "exact lift validates an unknown or repeated term")
  require (data.get "parse_reify_exact_identity").isTrue
    (at_ ++ "Fine lift lacks exact same-manager identity")
  require ((data.get "rendering_hash").isString ((find replay.terms term).get "rendering_hash").str)
    (at_ ++ "exact lift validates a different rendering")
  return { replay with termLiftValidations := replay.termLiftValidations ++ [term.str] }

/-- `synth.hole.declare` -/
def declareHole (replay : Replay) (at_ : String) (data : Json) : Except String Replay := do
  let hole := data.get "id"
  require (hole.isText && !hole.isIn (keys replay.holes))
    (at_ ++ "missing or reused synthesis hole ID")
  require ((data.get "snapshot").isIn (keys replay.snapshots) &&
      (data.get "source").isIn (keys replay.sourceNodes))
    (at_ ++ "synthesis hole has unknown source identity")
  let node := find replay.sourceNodes (data.get "source")
  require ((data.get "snapshot").isString (node.get "snapshot").str &&
      (node.get "syntax_kind").isString "expr.hole")
    (at_ ++ "synthesis hole source is not a hole in its snapshot")
  require ((data.get "name").isName && (data.get "expected_type").isString "Int" &&
      (data.get "grammar").isString "fine.qf-lia-int.v1")
    (at_ ++ "synthesis hole has malformed typed grammar")
  let inputs := data.get "grammar_inputs"
  require (inputs.isArray && inputs.items.all fun item => item.isIn (keys replay.terms))
    (at_ ++ "synthesis hole grammar names unknown terms")
  return { replay with holes := replay.holes ++ [(hole.str, data)] }

/-- `synth.arm.close` -/
def closeArm (replay : Replay) (at_ : String) (data : Json) : Except String Replay := do
  let hole := data.get "hole"
  require (hole.isIn (keys replay.holes) && !hole.isIn (keys replay.armWitnesses) &&
      (data.get "constructor").isName && (data.get "body").isName &&
      (data.get "semantic_term").isIn (keys replay.terms) &&
      (data.get "status").isString "verified")
    (at_ ++ "malformed or repeated synthesized arm witness")
  return { replay with armWitnesses := replay.armWitnesses ++ [(hole.str, data)] }

def holeSpan (replay : Replay) (hole : Json) : Json :=
  (find replay.sourceNodes ((find replay.holes hole).get "source")).get "span"

/-- One replacement after those of the holes named so far. -/
def checkReplacement (replay : Replay) (at_ : String) (named : List String) (replacement : Json) :
    Except String Unit := do
  require (replacement.isObject && replacement.hasKeys ["hole", "from", "to", "insert"])
    (at_ ++ "malformed match replacement")
  let hole := replacement.get "hole"
  let start := replacement.get "from"
  let stop := replacement.get "to"
  require (hole.isIn (keys replay.holes) && !hole.isIn named && start.isInt && stop.isInt &&
      (replacement.get "insert").isName)
    (at_ ++ "match replacement names an invalid hole")
  let span := replay.holeSpan hole
  require ((offset span "begin").isNumber start.integer && (offset span "end").isNumber stop.integer)
    (at_ ++ "match replacement moved outside its source hole")
  require (hole.isIn (keys replay.armWitnesses) &&
      ((find replay.armWitnesses hole).get "body").isString (replacement.get "insert").str)
    (at_ ++ "match replacement disagrees with its verified arm witness")

/-- The replacements of a match witness, in order. -/
def checkReplacements (replay : Replay) (at_ : String) :
    List String → List Json → Except String Unit
  | _, [] => pure ()
  | named, replacement :: rest => do
    replay.checkReplacement at_ named replacement
    replay.checkReplacements at_ (named ++ [(replacement.get "hole").str]) rest

def range (replacement : Json) : Int × Int :=
  ((replacement.get "from").integer, (replacement.get "to").integer)

/-- Ranges in order, none reaching into the next. -/
def rangesOrdered : List (Int × Int) → Bool
  | first :: second :: rest =>
    decide (first.1 < second.1 ∨ first.1 = second.1 ∧ first.2 ≤ second.2) &&
      decide (first.2 ≤ second.1) && rangesOrdered (second :: rest)
  | _ => true

def sameMembers (first second : List String) : Bool :=
  first.all second.contains && second.all first.contains

/-- `fine.match-witness` -/
def matchWitness (replay : Replay) (at_ : String) (data : Json) : Except String Replay := do
  require (replay.matchRun && replay.matchWitnessCount == 0)
    (at_ ++ "unexpected or repeated match witness")
  let replacements := data.get "replacements"
  require ((data.get "semantic_term").isIn (keys replay.terms) && (data.get "verified").isTrue &&
      replacements.isArray && (data.get "open_arms").isNumber replacements.items.length)
    (at_ ++ "malformed verified match witness")
  replay.checkReplacements at_ [] replacements.items
  require (rangesOrdered (replacements.items.map range))
    (at_ ++ "match replacements overlap or are unordered")
  require (sameMembers (replacements.items.map fun item => (item.get "hole").str)
      (keys replay.holes))
    (at_ ++ "match witness does not replace every open hole")
  require (sameMembers (keys replay.armWitnesses) (keys replay.holes))
    (at_ ++ "match witness has an unverified open arm")
  return { replay with matchWitnessCount := replay.matchWitnessCount + 1 }

/-- An inferred clause names the event of its instance. -/
def checkInstance (replay : Replay) (at_ : String) (eventId : String) (data : Json) :
    Except String Unit := do
  let acceptedId := data.get "quantifier_instance_event"
  let accepted := find replay.eventsById acceptedId
  require (acceptedId.isIn (keys replay.eventsById) && acceptedId.str != eventId &&
      ((accepted.get "operation").isString "z3.mbqi-instance" ||
        (accepted.get "operation").isString "z3.quantifier-instance"))
    (at_ ++ "inst clause names no prior accepted instance")
  require ((data.get "quantifier").isIn (keys replay.terms) &&
      (data.get "instance").isIn (keys replay.terms))
    (at_ ++ "inst clause names unknown ground terms")
  require (((accepted.get "data").get "quantifier").isString (data.get "quantifier").str &&
      ((accepted.get "data").get "instance").isString (data.get "instance").str)
    (at_ ++ "inst clause disagrees with accepted instance")
  let bindings := data.get "ground_bindings"
  require (bindings.isArray && bindings.items.all fun binding => binding.isIn (keys replay.terms))
    (at_ ++ "inst clause names unknown bindings")
  require ((data.get "relation").isString "accepted-instance-became-admitted-clause")
    (at_ ++ "inst clause has an unknown relation")

/-- The clause records an instance of a quantifier. -/
def isInstance (operation : String) (data : Json) : Bool :=
  operation == "z3.clause.infer" && (data.get "proof_hint_head").isString "inst"

/-- `z3.clause.*` -/
def checkClause (replay : Replay) (at_ : String) (eventId operation : String) (data : Json) :
    Except String Replay := do
  let literals := data.get "literals"
  let dependencies := data.get "dependency_indices"
  require ((data.get "proof_hint").isIn (keys replay.terms))
    (at_ ++ "clause names an unknown proof hint")
  require (literals.isArray && literals.items.all fun literal => literal.isIn (keys replay.terms))
    (at_ ++ "clause names an unknown literal")
  require ((data.get "literal_count").isNumber literals.items.length)
    (at_ ++ "clause literal count disagrees")
  require (dependencies.isArray && dependencies.items.all Json.isNatural)
    (at_ ++ "malformed clause dependency indices")
  if isInstance operation data then replay.checkInstance at_ eventId data else pure ()
  return replay

/-- What an event of each kind checks and declares. -/
def apply (digest : Digest) (source : Bytes) (envelope : Envelope)
    (replay : Replay) (at_ : String) (eventId operation : String) (data : Json) :
    Except String Replay :=
  match Operation.of operation with
  | .document => replay.declareDocument at_ data
  | .snapshot => replay.declareSnapshot digest source at_ data
  | .node => replay.declareNode source at_ data
  | .term => replay.declareTerm digest envelope at_ data
  | .lift => replay.validateLift at_ data
  | .hole => replay.declareHole at_ data
  | .arm => replay.closeArm at_ data
  | .witness => replay.matchWitness at_ data
  | .evidence => .ok { replay with evidence := replay.evidence ++ [data] }
  | .clause => replay.checkClause at_ eventId operation data
  | .other => .ok replay

/-- The operation ends a run. -/
def isTerminal (operation : String) (data : Json) : Bool :=
  ["check.run.close", "synth.run.close", "bisim.run.close", "predicate-check.run.close",
      "predicate-induction.run.close"].contains operation ||
    operation == "proof.run.close" && !(data.get "status").isString "verified"

def opensMatch (operation : String) (data : Json) : Bool :=
  operation == "synth.run.open" && data.has "matched_parameter"

def place (sequence : Nat) : String := "event " ++ toString sequence ++ ": "

/-- One event of the loop. -/
def step (digest : Digest) (source : Bytes) (envelope : Envelope)
    (sequence : Nat) (event : Json) (replay : Replay) : Except String Replay := do
  let at_ := place sequence
  require ((event.get "schema").isString "fine.rainfall.v2") (at_ ++ "unsupported schema")
  require ((event.get "sequence").isNumber sequence) (at_ ++ "non-contiguous sequence")
  require (envelope.matches_ event)
    (at_ ++ "cross-run, cross-recorder, or cross-manager envelope")
  let eventId := event.get "event_id"
  require (eventId.isText && !eventId.isIn (keys replay.eventsById))
    (at_ ++ "missing or reused event ID")
  let within := event.get "within"
  require (within.isArray && within.items.all Json.isName) (at_ ++ "malformed scope path")
  require replay.terminalSequence.isNone
    (at_ ++ "event after terminal run close at " ++ toString (replay.terminalSequence.getD 0))
  let operation := event.get "operation"
  let data := event.get "data"
  require (operation.isText && data.isObject) (at_ ++ "malformed operation or data")
  let opened : Replay := { replay with
    eventsById := replay.eventsById ++ [(eventId.str, event)]
    matchRun := replay.matchRun || opensMatch operation.str data }
  let later ← opened.apply digest source envelope at_ eventId.str operation.str data
  return { later with
    terminalSequence :=
      if isTerminal operation.str data then some sequence else later.terminalSequence }

/-- The loop over the events. -/
def run (digest : Digest) (source : Bytes) (envelope : Envelope) :
    Nat → List Json → Replay → Except String Replay
  | _, [], replay => pure replay
  | sequence, event :: events, replay => do
    let later ← step digest source envelope sequence event replay
    run digest source envelope (sequence + 1) events later

/-- A source edge against what the whole run declared. -/
def checkEdge (replay : Replay) (at_ : String) (edge : Json) : Except String Unit := do
  require ((edge.get "correspondence").isIn ["exact", "desugared", "generated", "internal_z3"])
    (at_ ++ "unknown correspondence")
  require ((edge.get "term").isIn (keys replay.terms)) (at_ ++ "unknown term handle")
  if (edge.get "correspondence").isString "internal_z3" then
    require (edge.get "source").isNull (at_ ++ "internal_z3 edge carries a source node")
  else do
    require ((edge.get "source").isIn (keys replay.sourceNodes)) (at_ ++ "unknown source node")
    require ((edge.get "snapshot").isString
        ((find replay.sourceNodes (edge.get "source")).get "snapshot").str)
      (at_ ++ "cross-snapshot source edge")

def checkEdges (replay : Replay) : Nat → List Json → Except String Unit
  | _, [] => pure ()
  | index, edge :: edges => do
    replay.checkEdge ("source edge " ++ toString index ++ ": ") edge
    replay.checkEdges (index + 1) edges

def finish (replay : Replay) (count : Nat) : Except String Unit := do
  require (replay.documents.length == 1) "replay must declare exactly one document"
  require (replay.snapshots.length == 1) "replay must declare exactly one snapshot"
  require (replay.terminalSequence == some (count - 1)) "replay has no terminal run close"
  require (sameMembers replay.termLiftValidations (keys replay.terms))
    "replay does not exact-validate every generated Fine term"
  require (!replay.matchRun || replay.matchWitnessCount == 1)
    "match synthesis replay has no unique verified match witness"
  replay.checkEdges 0 replay.evidence

end Replay

def envelopeOf (events : List Json) : Envelope :=
  let first := events.headD .null
  ⟨(first.get "run").str, (first.get "recorder").str, (first.get "manager").str⟩

/-- How much a replay holds. -/
structure Counts where
  events : Nat
  sourceNodes : Nat
  terms : Nat
  sourceTermEdges : Nat
deriving DecidableEq

/-- Validates the events of a run against their source. -/
def validate (digest : Digest) (source : Bytes) (events : List Json) :
    Except String Counts := do
  let first := events.headD .null
  require ((first.get "run").isName && (first.get "recorder").isName && (first.get "manager").isName)
    "first event has an incomplete run/recorder/manager envelope"
  let replay ← Replay.run digest source (envelopeOf events) 0 events Replay.initial
  replay.finish events.length
  return ⟨events.length, replay.sourceNodes.length, replay.terms.length, replay.evidence.length⟩

end Fine.Rainfall
