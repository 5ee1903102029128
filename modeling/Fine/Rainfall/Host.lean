import Fine.Rainfall.Generation
import Mathlib

/-!
# The host of a document

The state file holds the displayed source, the generations requested for it and the evidence placed
in it. `Call` lists the locked sections, of which `complete` has two, so a run of calls is an
interleaving of any number of clients. The JSON reader is a parameter; random tokens are arguments.
-/

namespace Fine.Rainfall

/-- `secrets.token_hex` of a number of bytes. -/
structure Hex (bytes : Nat) where
  text : String
  length_eq : text.length = 2 * bytes
  digits : text.toList.all (fun digit => "0123456789abcdef".toList.contains digit) = true

/-- The token of a generation. -/
abbrev Token := Hex 12

/-- The token of a document that is given no name. -/
abbrev DocumentToken := Hex 16

/-- Parts of a path relative to the directory of the host. -/
abbrev Path := List String

/-- Where a generation stands. -/
inductive Status where
  | requested
  | superseded
  | admitted
  | discarded
  | failed
deriving DecidableEq

/-- What the host keeps of a failed run. -/
structure Failure where
  generation : String
  error : String
deriving DecidableEq

/-- What the host keeps of a generation. -/
structure Record where
  status : Status
  request : Request
  sourceFile : Path
  requestFile : Path
  admission : Option Admission
  traceFile : Option Path
  failure : Option Failure

/-- The document of a host. -/
structure Document where
  id : String
  displayName : String
deriving DecidableEq

/-- Contents of the state file. -/
structure State where
  document : Document
  displaySnapshot : Identity
  displaySource : String
  currentGeneration : String
  generations : AList fun _ : String => Record
  annotations : List Annotation

/-- Contents of a retained file. -/
inductive Artifact where
  | bytes (content : Bytes)
  | request (content : Request)
deriving DecidableEq

/-- The directory of a host. -/
structure Host where
  state : Option State
  files : AList fun _ : Path => Artifact

def Host.empty : Host := ⟨none, ∅⟩

def isRetained (path : Path) : Bool :=
  path != [] && path.head? != some "/" && !path.contains ".."

def checkRecord (generation : String) (record : Record) : Except String Unit := do
  let request ← loadRequest record.request
  require (request.generation == generation) "host generation key disagrees with its request"
  require (isRetained record.sourceFile) "host source_file is not a retained relative path"
  require (isRetained record.requestFile) "host request_file is not a retained relative path"

def checkRecords : List (Sigma fun _ : String => Record) → Except String Unit
  | [] => pure ()
  | entry :: entries => do
    checkRecord entry.1 entry.2
    checkRecords entries

/-- An annotation against the displayed source's length. -/
def checkAnnotationSpan (length : Nat) (mark : Annotation) : Except String Unit :=
  match mark.status, mark.displaySpan with
  | .unplaced, span => require span.isNone "unplaced host annotation retains a display span"
  | _, none => throw "placed host annotation has no span"
  | _, some span =>
    require (decide (0 ≤ span.start.offset ∧ span.start.offset < span.stop.offset ∧
        span.stop.offset ≤ length))
      "host annotation span is outside the display"

/-- Checks the annotations. -/
def checkAnnotations (length : Nat) : List Annotation → Except String Unit
  | [] => pure ()
  | mark :: annotations => do
    checkAnnotationSpan length mark
    checkAnnotations length annotations

def checkState (digest : Digest) (state : State) : Except String Unit := do
  let source := Utf8.encode state.displaySource
  require (state.displaySnapshot ==
      sourceIdentity digest source state.document.id state.displaySnapshot.revision)
    "host display bytes disagree with their identity"
  require (state.generations.lookup state.currentGeneration).isSome
    "host current generation is missing"
  checkRecords state.generations.entries
  require ((state.generations.lookup state.currentGeneration).map
      (fun record => record.request.displaySnapshot) == some state.displaySnapshot)
    "host current request disagrees with the display snapshot"
  checkAnnotations source.length state.annotations

/-- Reads the state file. -/
def loadState (digest : Digest) (host : Host) : Except String State :=
  match host.state with
  | none => throw "cannot read host state"
  | some state => do
    checkState digest state
    return state

/-- Rewrites the state file. -/
def saveState (host : Host) (state : State) : Host := { host with state := some state }

def writeImmutable (host : Host) (path : Path) (content : Artifact) : Except String Host := do
  require (host.files.lookup path).isNone "FileExistsError"
  return { host with files := host.files.insert path content }

/-- Bytes of a retained file. -/
def readBytes (host : Host) (path : Path) : Except String Bytes :=
  match host.files.lookup path with
  | some (.bytes content) => pure content
  | _ => throw "FileNotFoundError"

def generationName (revision : Nat) (token : Token) : String :=
  "generation:" ++ toString revision ++ ":" ++ token.text

def sourceFile (revision : Nat) (token : Token) : Path :=
  ["sources", toString revision ++ "-" ++ token.text ++ ".fine"]

def requestFile (revision : Nat) (token : Token) : Path :=
  ["requests", toString revision ++ "-" ++ token.text ++ ".json"]

/-- Requests a generation of the displayed revision. -/
def issueGeneration (digest : Digest) (host : Host) (state : State) (source : Bytes)
    (token : Token) : Except String (Host × State) := do
  let revision := state.displaySnapshot.revision
  let generation := generationName revision token
  let request ← makeRequest digest source state.document.id revision generation
  let host ← writeImmutable host (sourceFile revision token) (.bytes source)
  let host ← writeImmutable host (requestFile revision token) (.request request)
  let record : Record :=
    ⟨.requested, request, sourceFile revision token, requestFile revision token, none, none, none⟩
  return (host, { state with
    generations := state.generations.insert generation record
    currentGeneration := generation })

/-- How many annotations there are of each placement. -/
structure AnnotationCounts where
  current : Nat
  transported : Nat
  unplaced : Nat
deriving DecidableEq

/-- Counts annotations by status. -/
def annotationCounts (annotations : List Annotation) : AnnotationCounts :=
  ⟨annotations.countP (·.status = .current), annotations.countP (·.status = .transported),
    annotations.countP (·.status = .unplaced)⟩

/-- What a client is told about a new generation. -/
structure Action where
  generation : String
  displaySnapshot : Identity
  source : Path
  fineArguments : List String
  annotationStates : AnnotationCounts

/-- Describes the run of the current generation. -/
def launchDescription (state : State) : Except String Action :=
  match state.generations.lookup state.currentGeneration with
  | none => throw "KeyError"
  | some record => pure ⟨state.currentGeneration, state.displaySnapshot, record.sourceFile,
      record.request.rainArguments ++ record.sourceFile, annotationCounts state.annotations⟩

/-- `initialize` -/
def initializeHost (digest : Digest) (source : Bytes) (displayName : String)
    (document : Option String) (documentToken : DocumentToken) (token : Token) (host : Host) :
    Except String (Host × Action) := do
  match Utf8.decode source with
  | none => throw "Fine host source is not UTF-8"
  | some sourceText => do
    require host.state.isNone "host is already initialized"
    let documentId := match document with
      | none => "document:" ++ documentToken.text
      | some given => if given = "" then "document:" ++ documentToken.text else given
    require (documentId != "") "document ID is empty"
    let state : State := ⟨⟨documentId, displayName⟩, sourceIdentity digest source documentId 0,
      sourceText, "", ∅, []⟩
    let (host, state) ← issueGeneration digest host state source token
    let action ← launchDescription state
    return (saveState host state, action)

/-- An annotation after a transaction. -/
def transportAnnotationSpan (displayed : Bytes) (edits : List Edit) (mark : Annotation) :
    Annotation :=
  match mark.displaySpan with
  | none => { mark with status := .unplaced }
  | some span =>
    match transportRange span.start.offset span.stop.offset edits with
    | some mapped => { mark with
        status := .transported
        displaySpan := some (sourceSpan displayed mapped.1 mapped.2) }
    | none => { mark with status := .unplaced, displaySpan := none }

/-- A generation still requested at an edit is superseded. -/
def supersede (record : Record) : Record :=
  if record.status = .requested then { record with status := .superseded } else record

def advanceLocked (digest : Digest) (host : Host) (state : State) (edits : List Edit)
    (token : Token) : Except String (Host × Action) := do
  let oldSource := Utf8.encode state.displaySource
  require (!edits.isEmpty) "an empty transaction does not advance a revision"
  let displayedSource := applyEdits oldSource edits
  match Utf8.decode displayedSource, state.generations.lookup state.currentGeneration with
  | none, _ => throw "transaction produced non-UTF-8 Fine source"
  | _, none => throw "KeyError"
  | some displayedText, some previous => do
    let advanced : State := { state with
      generations := state.generations.insert state.currentGeneration (supersede previous)
      displaySnapshot := sourceIdentity digest displayedSource state.document.id
        (state.displaySnapshot.revision + 1)
      displaySource := displayedText
      annotations := state.annotations.map (transportAnnotationSpan displayedSource edits) }
    let (host, advanced) ← issueGeneration digest host advanced displayedSource token
    let action ← launchDescription advanced
    return (saveState host advanced, action)

/-- `advance` -/
def advance (digest : Digest) (edits : Json) (token : Token) (host : Host) :
    Except String (Host × Action) := do
  let state ← loadState digest host
  let edits ← loadEdits edits (Utf8.encode state.displaySource).length
  advanceLocked digest host state edits token

def Status.text : Status → String
  | .requested => "requested"
  | .superseded => "superseded"
  | .admitted => "admitted"
  | .discarded => "discarded"
  | .failed => "failed"

def Status.isOpen (status : Status) : Bool := status = .requested || status = .superseded

def replacementEdit (replacement : Json) : Json :=
  .object [("from", replacement.get "from"), ("to", replacement.get "to"),
    ("insert", replacement.get "insert")]

/-- The source there begins with a question mark. -/
def isHoleAt (source : Bytes) (replacement : Json) : Bool :=
  ((source.take (replacement.get "to").integer.toNat).drop
    (replacement.get "from").integer.toNat).head? == some 63

/-- `materialize` -/
def materialize (digest : Digest) (read : Bytes → Except String (List Json)) (token : Token)
    (host : Host) : Except String (Host × Action) := do
  let state ← loadState digest host
  match state.generations.lookup state.currentGeneration with
  | none => throw "KeyError"
  | some record => do
    require (record.status == .admitted) "only the current admitted generation can be materialized"
    match record.traceFile with
    | none => throw "admitted generation has no retained trace"
    | some traceFile => do
      let source := Utf8.encode state.displaySource
      let trace ← readBytes host traceFile
      let events ← read trace
      let _ ← validate digest source events
      match named "fine.match-witness" events with
      | [witness] => do
        let replacements := (witness.get "data").get "replacements"
        require (replacements.isArray && !replacements.items.isEmpty)
          "current match witness has no open arms to materialize"
        require (replacements.items.all (isHoleAt source))
          "current source no longer contains the admitted hole text"
        let edits ← loadEdits (.array (replacements.items.map replacementEdit)) source.length
        advanceLocked digest host state edits token
      | _ => throw "current trace has no unique match witness"

/-- A completion between its two locked sections. -/
structure Pending where
  generation : String
  trace : Bytes
  candidateSource : Bytes
  events : List Json

/-- First section of `complete`, and the validation. -/
def beginCompletion (digest : Digest) (read : Bytes → Except String (List Json))
    (generation : String) (trace : Bytes) (host : Host) : Except String Pending := do
  let initial ← loadState digest host
  match initial.generations.lookup generation with
  | none => throw "completion names an unknown generation"
  | some record => do
    require record.status.isOpen ("generation is already " ++ record.status.text)
    let candidateSource ← readBytes host record.sourceFile
    let events ← read trace
    let _ ← validate digest candidateSource events
    return ⟨generation, trace, candidateSource, events⟩

/-- What stands behind the last colon of a name. -/
def lastPart (name : String) : String :=
  String.ofList (name.toList.reverse.takeWhile (· ≠ ':')).reverse

def traceFile (generation : String) : Path := ["traces", lastPart generation ++ ".jsonl"]

/-- Retains a trace, which may be there from before. -/
def retainTrace (host : Host) (path : Path) (trace : Bytes) : Except String Host :=
  match host.files.lookup path with
  | some (.bytes content) => do
    require (content == trace) "retained completion trace disagrees with an orphaned trace"
    return host
  | some (.request _) => throw "retained completion trace disagrees with an orphaned trace"
  | none => writeImmutable host path (.bytes trace)

def Admission.status : Admission → Status
  | .admitted .. => .admitted
  | .discarded .. => .discarded

def Admission.annotations (annotations : List Annotation) : Admission → List Annotation
  | .admitted _ _ projection => projection.annotations
  | .discarded .. => annotations

/-- Second section of `complete`. -/
def finishCompletion (digest : Digest) (pending : Pending) (host : Host) :
    Except String (Host × Admission) := do
  let state ← loadState digest host
  match state.generations.lookup pending.generation,
    state.generations.lookup state.currentGeneration with
  | none, _ => throw "KeyError"
  | _, none => throw "KeyError"
  | some record, some current => do
    require record.status.isOpen ("generation is already " ++ record.status.text)
    let admission ← admitReplay digest current.request (Utf8.encode state.displaySource)
      pending.candidateSource pending.events
    let host ← retainTrace host (traceFile pending.generation) pending.trace
    let record : Record := { record with
      status := admission.status
      admission := some admission
      traceFile := some (traceFile pending.generation) }
    return (saveState host { state with
      generations := state.generations.insert pending.generation record
      annotations := admission.annotations state.annotations }, admission)

/-- `mark_failed` -/
def markFailed (digest : Digest) (generation error : String) (host : Host) :
    Except String Host := do
  let state ← loadState digest host
  match state.generations.lookup generation with
  | none => throw "failure names an unknown generation"
  | some record => do
    require record.status.isOpen ("generation is already " ++ record.status.text)
    let record : Record := { record with
      status := .failed
      failure := some ⟨generation, error⟩ }
    return saveState host { state with generations := state.generations.insert generation record }

/-- The directory with the completions that clients are in the middle of. -/
structure System where
  host : Host
  pending : List Pending

/-- Before the first call. -/
def System.empty : System := ⟨Host.empty, []⟩

/-- One locked section of some client. -/
inductive Call where
  | initialize_ (source : Bytes) (displayName : String) (document : Option String)
    (documentToken : DocumentToken) (token : Token)
  | advance (edits : Json) (token : Token)
  | begin_ (generation : String) (trace : Bytes)
  | finish (pending : Pending)
  | markFailed (generation error : String)
  | materialize (token : Token)

section Calls

variable (digest : Digest) (read : Bytes → Except String (List Json))

/-- Runs a section; who ran the first one may run the second more than once. -/
def System.call (system : System) : Call → Except String System
  | .initialize_ source displayName document documentToken token => do
    let (host, _) ← initializeHost digest source displayName document documentToken token
      system.host
    return { system with host := host }
  | .advance edits token => do
    let (host, _) ← Rainfall.advance digest edits token system.host
    return { system with host := host }
  | .begin_ generation trace => do
    let pending ← beginCompletion digest read generation trace system.host
    return { system with pending := pending :: system.pending }
  | .finish pending => do
    let (host, _) ← finishCompletion digest pending system.host
    return { system with host := host }
  | .markFailed generation error => do
    let host ← Rainfall.markFailed digest generation error system.host
    return { system with host := host }
  | .materialize token => do
    let (host, _) ← Rainfall.materialize digest read token system.host
    return { system with host := host }

/-- A second section is run only with what the first one left. -/
def System.allows (system : System) : Call → Prop
  | .finish pending => pending ∈ system.pending
  | _ => True

def System.next (system : System) (call : Call) : System :=
  match system.call digest read call with
  | .ok later => later
  | .error _ => system

/-- Runs of any number of clients. -/
inductive Reaches : System → List Call → System → Prop where
  | start (system : System) : Reaches system [] system
  | step {system middle : System} {calls : List Call} (reached : Reaches system calls middle)
    (call : Call) (allowed : middle.allows call) :
    Reaches system (calls ++ [call]) (middle.next digest read call)

end Calls

end Fine.Rainfall
