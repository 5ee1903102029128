import Fine.Rainfall.Replay

/-!
# Projection of evidence through an edit

`project` turns the evidence of a validated replay into annotations of the edited source. It fails
where Python subscripts a dictionary without the key.
-/

namespace Fine.Rainfall

/-- One replacement of a transaction. -/
structure Edit where
  start : Nat
  stop : Nat
  insert : Bytes
  insertText : String
deriving DecidableEq

/-- `isinstance(value, int) and not isinstance(value, bool)`. -/
def Json.isOffset : Json → Bool
  | .int _ => true
  | _ => false

/-- The edits of a transaction after one that reached up to a place. -/
def loadEditsFrom (sourceLength : Nat) : Nat → Int → Int → List Json → Except String (List Edit)
  | _, _, _, [] => pure []
  | index, previousBegin, previousEnd, item :: items => do
    let at_ := "edit " ++ toString index ++ ": "
    require item.isObject (at_ ++ "expected an object")
    require (item.hasKeys ["from", "to", "insert"]) (at_ ++ "expected exactly from/to/insert")
    let start := item.get "from"
    let stop := item.get "to"
    let insert := item.get "insert"
    require start.isOffset (at_ ++ "from is not an integer byte offset")
    require stop.isOffset (at_ ++ "to is not an integer byte offset")
    require insert.isText (at_ ++ "insert is not UTF-8 text")
    require (decide (0 ≤ start.integer ∧ start.integer ≤ stop.integer ∧
        stop.integer ≤ sourceLength))
      (at_ ++ "range is outside the source")
    require (decide (previousEnd ≤ start.integer))
      (at_ ++ "edits overlap or are not in source order")
    require (!decide (start.integer = stop.integer ∧ stop.integer = previousBegin ∧
        previousBegin = previousEnd))
      (at_ ++ "two insertions at one offset are ambiguous")
    let rest ← loadEditsFrom sourceLength (index + 1) start.integer stop.integer items
    return ⟨start.integer.toNat, stop.integer.toNat, Utf8.encode insert.str, insert.str⟩ :: rest

/-- A transaction: an array of edits, or an object with one. -/
def loadEdits (value : Json) (sourceLength : Nat) : Except String (List Edit) := do
  require (!value.isObject || value.hasKeys ["edits"])
    "transaction object must contain only `edits`"
  let edits := if value.isObject then value.get "edits" else value
  require edits.isArray "transaction must be an edit array"
  loadEditsFrom sourceLength 0 (-1) 0 edits.items

/-- The source from a place on, with the edits applied. -/
def applyFrom (source : Bytes) : Nat → List Edit → Bytes
  | cursor, [] => source.drop cursor
  | cursor, edit :: edits =>
    (source.take edit.start).drop cursor ++ edit.insert ++ applyFrom source edit.stop edits

/-- The source with the edits applied. -/
def applyEdits (source : Bytes) (edits : List Edit) : Bytes := applyFrom source 0 edits

def Edit.delta (edit : Edit) : Int := edit.insert.length - (edit.stop - edit.start : Int)

/-- A range moved by edits, where those before have moved the source so far. -/
def transportFrom : Int → Int → Int → List Edit → Int × Int
  | _, mappedBegin, mappedEnd, [] => (mappedBegin, mappedEnd)
  | accumulated, mappedBegin, mappedEnd, edit :: edits =>
    let editBegin := edit.start + accumulated
    let editEnd := edit.stop + accumulated
    if editEnd ≤ mappedBegin then
      transportFrom (accumulated + edit.delta) (mappedBegin + edit.delta)
        (mappedEnd + edit.delta) edits
    else if mappedEnd ≤ editBegin then
      transportFrom (accumulated + edit.delta) mappedBegin mappedEnd edits
    else
      transportFrom (accumulated + edit.delta)
        (if editBegin ≤ mappedBegin then editBegin else mappedBegin)
        (if mappedEnd ≤ editEnd then editBegin + edit.insert.length else mappedEnd + edit.delta)
        edits

/-- Maps a byte range, unplaced if it is deleted. -/
def transportRange (start stop : Int) (edits : List Edit) : Option (Int × Int) :=
  let mapped := transportFrom 0 start stop edits
  if mapped.2 ≤ mapped.1 then none else some mapped

/-- A place of a source. -/
structure Position where
  offset : Int
  line : Int
  column : Int
deriving DecidableEq

/-- A stretch of a source. -/
structure Span where
  start : Position
  stop : Position
deriving DecidableEq

/-- Line and column, which counts the bytes behind the last newline. -/
def sourcePosition (source : Bytes) (offset : Int) : Position :=
  let before := source.take offset.toNat
  let behind := (before.reverse.takeWhile (· ≠ 10)).length
  ⟨offset, before.count 10 + 1, offset - (before.length - 1 - behind)⟩

/-- Lines and columns of a byte range. -/
def sourceSpan (source : Bytes) (start stop : Int) : Span :=
  ⟨sourcePosition source start, sourcePosition source stop⟩

/-- `value[key]` -/
def Json.at_ (value : Json) (key : String) : Except String Json := do
  require (value.has key) ("KeyError: " ++ key)
  return value.get key

/-- `entries[key]` for a dictionary of texts. -/
def subscript (entries : List (String × Json)) (key : Json) : Except String Json := do
  require (key.isIn (keys entries)) "KeyError"
  return find entries key

/-- Events of an operation. -/
def named (operation : String) (events : List Json) : List Json :=
  events.filter fun event => (event.get "operation").isString operation

/-- Data of an operation's events by declared identities. -/
def declared (operation : String) (events : List Json) : List (String × Json) :=
  (named operation events).map fun event =>
    (((event.get "data").get "id").str, event.get "data")

/-- Objects of a replay by their public references. -/
structure Catalog where
  document : Json
  snapshot : Json
  sourceNodes : List (String × Json)
  terms : List (String × Json)
  evidence : List Json

def firstNamed (operation : String) (events : List Json) : Except String Json :=
  match named operation events with
  | [] => throw "StopIteration"
  | event :: _ => pure event

/-- Returns the objects of a validated replay. -/
def catalog (events : List Json) : Except String Catalog := do
  let documentEvent ← firstNamed "source.document.declare" events
  let snapshotEvent ← firstNamed "source.snapshot.declare" events
  return ⟨documentEvent.get "data", snapshotEvent.get "data",
    declared "source.node.declare" events, declared "term.declare" events,
    named "source.term.evidence" events⟩

/-- Identity of a source at a revision of a document. -/
structure Identity where
  document : String
  revision : Nat
  exactSourceHash : String
  byteLength : Nat
deriving DecidableEq

/-- How an annotation stands to the displayed source. -/
inductive AnnotationStatus where
  | current
  | transported
  | unplaced
deriving DecidableEq

/-- What an annotation reports. -/
structure Claim where
  snapshot : Json
  source : Json
  term : Json
  correspondence : Json
  eventId : Json
  within : Json

/-- A ground term bound by an instance. -/
structure GroundBinding where
  term : Json
  text : Json

/-- An instance the solver accepted for a clause. -/
structure AcceptedInstance where
  acceptedEvent : Json
  instance_ : Json
  instanceText : Json
  admittedClauseEvent : Option Json
  groundBindings : List GroundBinding

/-- What the solver did with a clause of a bisimulation. -/
structure Activity where
  role : Json
  assertionEvent : Json
  acceptedInstances : List AcceptedInstance

/-- Evidence placed in a displayed source. -/
structure Annotation where
  status : AnnotationStatus
  claim : Claim
  syntaxKind : Json
  claimSpan : Json
  displaySpan : Option Span
  termText : Json
  activity : Option Activity

/-- The displayed source of a projection. -/
structure DisplaySnapshot where
  admittedByRainfall : Bool
  id : Option Json
  identity : Identity

/-- Evidence of a replay in the source after a transaction. -/
structure Projection where
  document : Json
  claimSnapshot : Json
  displaySnapshot : DisplaySnapshot
  transaction : List Edit
  annotations : List Annotation

/-- Events by a value of their data. -/
def keyed (field : String) (events : List Json) : Except String (List (Json × Json)) :=
  events.mapM fun event => do
    let data ← event.at_ "data"
    let key ← data.at_ field
    require key.isHashable "TypeError: unhashable type"
    return (key, event)

def lastUnder (entries : List (Json × Json)) (key : String) : Option Json :=
  (entries.reverse.find? fun entry => entry.1.isString key).map Prod.snd

def instanceClauses (events : List Json) : List Json :=
  (named "z3.clause.infer" events).filter fun event =>
    ((event.get "data").get "proof_hint_head").isString "inst"

/-- Events that accepted an instance for a role. -/
def acceptedFor (events : List Json) (role : String) : List Json :=
  events.filter fun event =>
    ((event.get "operation").isString "z3.mbqi-instance" ||
      (event.get "operation").isString "z3.quantifier-instance") &&
      ((event.get "data").get "source_role").isString role

def termText (terms : List (String × Json)) (reference : Json) : Except String Json := do
  let term ← subscript terms reference
  term.at_ "text"

def groundBindings (terms : List (String × Json)) : Option Json →
    Except String (List GroundBinding)
  | none => pure []
  | some lemma_ => do
    let data ← lemma_.at_ "data"
    let references ← data.at_ "ground_bindings"
    references.items.mapM fun reference => do
      let text ← termText terms reference
      return ⟨reference, text⟩

/-- One accepted instance. -/
def acceptedInstance (terms : List (String × Json)) (lemmas : List (Json × Json)) (event : Json) :
    Except String AcceptedInstance := do
  let eventId ← event.at_ "event_id"
  let lemma_ := lastUnder lemmas eventId.str
  let bindings ← groundBindings terms lemma_
  let data ← event.at_ "data"
  let reference ← data.at_ "instance"
  let text ← termText terms reference
  let clause ← lemma_.mapM fun event => event.at_ "event_id"
  return ⟨eventId, reference, text, clause, bindings⟩

/-- What the solver did with a term's clause. -/
def bisimulationActivity (events : List Json) (terms : List (String × Json))
    (assertions lemmas : List (Json × Json)) (reference : Json) :
    Except String (Option Activity) :=
  match lastUnder assertions reference.str with
  | none => pure none
  | some assertion => do
    let data ← assertion.at_ "data"
    let role ← data.at_ "role"
    require role.isText "TypeError: can only concatenate str"
    let instances ← (acceptedFor events ("fine.bisim." ++ role.str)).mapM
      (acceptedInstance terms lemmas)
    let eventId ← assertion.at_ "event_id"
    return some ⟨role, eventId, instances⟩

/-- Where a range of the source stands after the edits. -/
def place (displayed : Bytes) (edits : List Edit) (start stop : Int) :
    AnnotationStatus × Option Span :=
  if edits.isEmpty then (.current, some (sourceSpan displayed start stop))
  else match transportRange start stop edits with
    | some mapped => (.transported, some (sourceSpan displayed mapped.1 mapped.2))
    | none => (.unplaced, none)

def annotate (events : List Json) (objects : Catalog) (assertions lemmas : List (Json × Json))
    (displayed : Bytes) (edits : List Edit) (event : Json) : Except String Annotation := do
  let edge ← event.at_ "data"
  let source ← edge.at_ "source"
  let node ← subscript objects.sourceNodes source
  let reference ← edge.at_ "term"
  let term ← subscript objects.terms reference
  let span ← node.at_ "span"
  let start ← (← span.at_ "begin").at_ "offset"
  let stop ← (← span.at_ "end").at_ "offset"
  let placed := place displayed edits start.integer stop.integer
  let snapshot ← objects.snapshot.at_ "id"
  let correspondence ← edge.at_ "correspondence"
  let eventId ← event.at_ "event_id"
  let within ← event.at_ "within"
  let kind ← node.at_ "syntax_kind"
  let text ← term.at_ "text"
  let activity ← bisimulationActivity events objects.terms assertions lemmas reference
  return ⟨placed.1, ⟨snapshot, source, reference, correspondence, eventId, within⟩, kind, span,
    placed.2, text, activity⟩

/-- Projects the evidence of a replay through a transaction. -/
def project (digest : Digest) (source : Bytes) (events : List Json) (edits : List Edit) :
    Except String (Projection × Bytes) := do
  let _ ← validate digest source events
  let objects ← catalog events
  let displayed := applyEdits source edits
  let identity ← objects.snapshot.at_ "identity"
  let document ← identity.at_ "document"
  let revision ← identity.at_ "revision"
  let assertions ← keyed "assertion" (named "bisim.clause.assert" events)
  let lemmas ← keyed "quantifier_instance_event" (instanceClauses events)
  let annotations ← objects.evidence.mapM
    (annotate events objects assertions lemmas displayed edits)
  let id ← objects.snapshot.at_ "id"
  return (⟨objects.document, objects.snapshot,
    ⟨edits.isEmpty, if edits.isEmpty then some id else none,
      ⟨document.str, revision.integer.toNat + (if edits.isEmpty then 0 else 1),
        digest.identity displayed, displayed.length⟩⟩, edits, annotations⟩, displayed)

end Fine.Rainfall
