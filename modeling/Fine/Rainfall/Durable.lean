import Fine.Library.Effects
import Fine.Rainfall.Generations

/-!
# The host on its disk

The locked sections with every effect on the disk. A retained file appears empty and grows byte by
byte; the state file is written beside its place and renamed.
-/

namespace Fine.Rainfall

open Effects (Effectful Within Atomic)

/-- The directory of a host, and what unfinished writes have left beside it. -/
structure Disk where
  host : Host
  temporaries : List Bytes

/-- Bytes of what is written as JSON. -/
structure Texts where
  state : State → Bytes
  request : Request → Bytes

/-- Bytes of a retained file. -/
def Texts.artifact (texts : Texts) : Artifact → Bytes
  | .bytes content => content
  | .request content => texts.request content

/-- The disk with a file. -/
def Disk.put (disk : Disk) (path : Path) (content : Artifact) : Disk :=
  { disk with host := { disk.host with files := disk.host.files.insert path content } }

namespace Durable

section Sections

variable (digest : Digest) (texts : Texts) (read : Bytes → Except String (List Json))

/-- A computation on the directory without effects. -/
def consult {α : Type} (reading : Host → Except String α) : Effectful Disk α :=
  .look fun disk => reading disk.host

/-- `_write_immutable` -/
def writeImmutable (path : Path) (content : Artifact) : Effectful Disk Unit := do
  consult fun host => require (host.files.lookup path).isNone "FileExistsError"
  .effect (fun disk => (List.range ((texts.artifact content).length + 1)).map fun count =>
    disk.put path (.bytes ((texts.artifact content).take count))) fun disk => disk.put path content

/-- `save_state` -/
def saveState (state : State) : Effectful Disk Unit :=
  .effect (fun disk => (List.range ((texts.state state).length + 1)).map fun count =>
    { disk with temporaries := (texts.state state).take count :: disk.temporaries })
    fun disk => { disk with host := Rainfall.saveState disk.host state }

/-- `_issue_generation` -/
def issueGeneration (state : State) (source : Bytes) (token : Token) : Effectful Disk State := do
  let revision := state.displaySnapshot.revision
  let generation := generationName revision token
  let request ← consult fun _ => makeRequest digest source state.document.id revision generation
  writeImmutable texts (sourceFile revision token) (.bytes source)
  writeImmutable texts (requestFile revision token) (.request request)
  return { state with
    generations := state.generations.insert generation
      ⟨.requested, request, sourceFile revision token, requestFile revision token, none, none, none⟩
    currentGeneration := generation }

/-- The end of a section that issues a generation. -/
def issueAndSave (state : State) (source : Bytes) (token : Token) : Effectful Disk Action := do
  let issued ← issueGeneration digest texts state source token
  saveState texts issued
  consult fun _ => launchDescription issued

/-- `initialize` -/
def initializeHost (source : Bytes) (displayName : String) (document : Option String)
    (documentToken : DocumentToken) (token : Token) : Effectful Disk Action := do
  match Utf8.decode source with
  | none => consult fun _ => throw "Fine host source is not UTF-8"
  | some sourceText => do
    consult fun host => require host.state.isNone "host is already initialized"
    let documentId := match document with
      | none => "document:" ++ documentToken.text
      | some given => if given = "" then "document:" ++ documentToken.text else given
    consult fun _ => require (documentId != "") "document ID is empty"
    issueAndSave digest texts ⟨⟨documentId, displayName⟩, sourceIdentity digest source documentId 0,
      sourceText, "", ∅, []⟩ source token

/-- `_advance_locked` -/
def advanceLocked (state : State) (edits : List Edit) (token : Token) :
    Effectful Disk Action := do
  consult fun _ => require (!edits.isEmpty) "an empty transaction does not advance a revision"
  let displayed := applyEdits (Utf8.encode state.displaySource) edits
  match Utf8.decode displayed, state.generations.lookup state.currentGeneration with
  | none, _ => consult fun _ => throw "transaction produced non-UTF-8 Fine source"
  | _, none => consult fun _ => throw "KeyError"
  | some text, some previous =>
    issueAndSave digest texts (state.advance digest displayed text edits previous) displayed token

/-- `advance` -/
def advance (value : Json) (token : Token) : Effectful Disk Action := do
  let state ← consult (loadState digest)
  let edits ← consult fun _ => loadEdits value (Utf8.encode state.displaySource).length
  advanceLocked digest texts state edits token

/-- `materialize` -/
def materialize (token : Token) : Effectful Disk Action := do
  let state ← consult (loadState digest)
  match state.generations.lookup state.currentGeneration with
  | none => consult fun _ => throw "KeyError"
  | some record => do
    consult fun _ => require (record.status == .admitted)
      "only the current admitted generation can be materialized"
    match record.traceFile with
    | none => consult fun _ => throw "admitted generation has no retained trace"
    | some traceFile => do
      let source := Utf8.encode state.displaySource
      let trace ← consult fun host => readBytes host traceFile
      let events ← consult fun _ => read trace
      let _ ← consult fun _ => validate digest source events
      match named "fine.match-witness" events with
      | [witness] => do
        let replacements := (witness.get "data").get "replacements"
        consult fun _ => require (replacements.isArray && !replacements.items.isEmpty)
          "current match witness has no open arms to materialize"
        consult fun _ => require (replacements.items.all (isHoleAt source))
          "current source no longer contains the admitted hole text"
        let edits ← consult fun _ =>
          loadEdits (.array (replacements.items.map replacementEdit)) source.length
        advanceLocked digest texts state edits token
      | _ => consult fun _ => throw "current trace has no unique match witness"

/-- `_record_completion` retains the trace. -/
def retainTrace (path : Path) (trace : Bytes) : Effectful Disk Unit := do
  let found ← consult fun host => pure (host.files.lookup path)
  match found with
  | some (.bytes content) =>
    consult fun _ =>
      require (content == trace) "retained completion trace disagrees with an orphaned trace"
  | some (.request _) =>
    consult fun _ => throw "retained completion trace disagrees with an orphaned trace"
  | none => writeImmutable texts path (.bytes trace)

/-- Second section of `complete`. -/
def finishCompletion (pending : Pending) : Effectful Disk Admission := do
  let state ← consult (loadState digest)
  match state.generations.lookup pending.generation,
    state.generations.lookup state.currentGeneration with
  | none, _ => consult fun _ => throw "KeyError"
  | _, none => consult fun _ => throw "KeyError"
  | some record, some current => do
    consult fun _ => require record.status.isOpen ("generation is already " ++ record.status.text)
    let admission ← consult fun _ => admitReplay digest current.request
      (Utf8.encode state.displaySource) pending.candidateSource pending.events
    retainTrace texts (traceFile pending.generation) pending.trace
    saveState texts { state with
      generations := state.generations.insert pending.generation { record with
        status := admission.status
        admission := some admission
        traceFile := some (traceFile pending.generation) }
      annotations := admission.annotations state.annotations }
    return admission

/-- `complete`, with no other client between its sections. -/
def complete (generation : String) (trace : Bytes) : Effectful Disk Admission := do
  let pending ← consult (beginCompletion digest read generation trace)
  finishCompletion digest texts pending

/-- `mark_failed` -/
def markFailed (generation error : String) : Effectful Disk Unit := do
  let state ← consult (loadState digest)
  match state.generations.lookup generation with
  | none => consult fun _ => throw "failure names an unknown generation"
  | some record => do
    consult fun _ => require record.status.isOpen ("generation is already " ++ record.status.text)
    saveState texts { state with generations := state.generations.insert generation { record with
      status := .failed
      failure := some ⟨generation, error⟩ } }

end Sections

/-! ## The sections of the host -/

/-- On the disk happens what happens to the host. -/
def Realizes {α : Type} (action : Effectful Disk α) (disk : Disk) :
    Except String (Host × α) → Prop
  | .ok (host, value) =>
    (action disk).result = .ok value ∧ (action disk).final = { disk with host := host }
  | .error message => (action disk).result = .error message

section Realized

variable {α β : Type} {disk : Disk} {digest : Digest} {texts : Texts}
  {read : Bytes → Except String (List Json)}

variable {next : α → Effectful Disk β}

variable {reading : Host → Except String α} {more : Host → Except String (Host × β)}
  {first : Effectful Disk α} {expected : Except String (Host × β)} {path : Path}

theorem consult_bind {value : α} (found : reading disk.host = .ok value) :
    (consult reading >>= next) disk = next value disk :=
  Effectful.look_bind_of_ok found

theorem Realizes.consult {more : α → Except String (Host × β)}
    (tail : ∀ value, reading disk.host = .ok value → Realizes (next value) disk (more value)) :
    Realizes (consult reading >>= next) disk (reading disk.host >>= more) := by
  cases found : reading disk.host with
  | error message => exact congrArg Effects.Outcome.result (Effectful.bind_of_error found)
  | ok value =>
    have there := tail value found
    show Realizes _ disk (more value)
    unfold Realizes at there ⊢
    rwa [consult_bind found]

theorem Realizes.of_ok {host : Host} {value : α} (ran : (first disk).result = .ok value)
    (ended : (first disk).final = { disk with host := host })
    (tail : Realizes (next value) { disk with host := host } expected) :
    Realizes (first >>= next) disk expected := by
  cases expected with
  | error message | ok pair =>
    rw [Realizes, Effectful.bind_of_ok ran, ended]
    exact tail

theorem Realizes.congr {other : Effectful Disk α} (same : first disk = other disk)
    (realizes : Realizes (other >>= next) disk expected) :
    Realizes (first >>= next) disk expected := by
  have whole : (first >>= next) disk = (other >>= next) disk := by
    show Effectful.bind first next disk = Effectful.bind other next disk
    rw [Effectful.bind, Effectful.bind, same]
  unfold Realizes at realizes ⊢
  rwa [whole]

theorem Realizes.write {content : Artifact} {next : Unit → Effectful Disk β}
    (tail : ∀ host, Realizes (next ()) { disk with host := host } (more host)) :
    Realizes (writeImmutable texts path content >>= next) disk
      (Rainfall.writeImmutable disk.host path content >>= more) := by
  cases there : (disk.host.files.lookup path).isNone with
  | false =>
    have old : Rainfall.writeImmutable disk.host path content = .error "FileExistsError" := by
      rw [Rainfall.writeImmutable, there]
      rfl
    have new : (writeImmutable texts path content disk).result = .error "FileExistsError" :=
      congrArg Effects.Outcome.result (Effectful.bind_of_error
        (show require _ _ = Except.error "FileExistsError" by rw [there]; rfl))
    rw [old]
    exact congrArg Effects.Outcome.result (Effectful.bind_of_error new)
  | true =>
    have old : Rainfall.writeImmutable disk.host path content = .ok (disk.put path content).host :=
      writeImmutable_ok.mpr ⟨Option.isNone_iff_eq_none.mp there, rfl⟩
    have new : writeImmutable texts path content disk = _ :=
      Effectful.look_bind_of_ok (show require _ _ = Except.ok () by rw [there]; rfl)
    rw [old]
    exact .of_ok (by rw [new]; rfl) (by rw [new]; rfl) (tail _)

theorem issueGeneration_realizes (state : State) (source : Bytes) (token : Token) :
    Realizes (issueGeneration digest texts state source token) disk
      (Rainfall.issueGeneration digest disk.host state source token) :=
  .consult fun _ _ => .write fun _ => .write fun _ => ⟨rfl, rfl⟩

theorem issueAndSave_realizes (state : State) (source : Bytes) (token : Token) :
    Realizes (issueAndSave digest texts state source token) disk (do
      let (host, state) ← Rainfall.issueGeneration digest disk.host state source token
      let action ← launchDescription state
      return (Rainfall.saveState host state, action)) := by
  have issues := @issueGeneration_realizes disk digest texts state source token
  cases made : Rainfall.issueGeneration digest disk.host state source token with
  | error message =>
    rw [made] at issues
    exact congrArg Effects.Outcome.result (Effectful.bind_of_error issues)
  | ok pair =>
    rw [made] at issues
    obtain ⟨-, -, issued, -⟩ := issueGeneration_ok made
    obtain ⟨action, told⟩ := @launchDescription_issue digest source token state
    rw [← issued] at told
    refine .of_ok issues.1 issues.2 ?_
    show Realizes (saveState texts pair.2 >>= fun _ => consult fun _ => launchDescription pair.2) _
      (launchDescription pair.2 >>= _)
    rw [told]
    exact ⟨rfl, rfl⟩

theorem advanceLocked_realizes (state : State) (edits : List Edit) (token : Token) :
    Realizes (advanceLocked digest texts state edits token) disk
      (Rainfall.advanceLocked digest disk.host state edits token) := by
  refine .consult fun _ _ => ?_
  dsimp only
  cases Utf8.decode (applyEdits (Utf8.encode state.displaySource) edits) with
  | none => exact rfl
  | some text =>
    cases state.generations.lookup state.currentGeneration with
    | none => exact rfl
    | some previous => exact issueAndSave_realizes _ _ _

theorem advance_realizes (value : Json) (token : Token) :
    Realizes (advance digest texts value token) disk
      (Rainfall.advance digest value token disk.host) :=
  .consult fun _ _ => .consult fun _ _ => advanceLocked_realizes _ _ _

theorem initializeHost_realizes (source : Bytes) (displayName : String) (document : Option String)
    (documentToken : DocumentToken) (token : Token) :
    Realizes (initializeHost digest texts source displayName document documentToken token) disk
      (Rainfall.initializeHost digest source displayName document documentToken token disk.host) := by
  unfold initializeHost Rainfall.initializeHost
  cases Utf8.decode source with
  | none => exact rfl
  | some text => exact .consult fun _ _ => .consult fun _ _ => issueAndSave_realizes _ _ _

theorem materialize_realizes (token : Token) :
    Realizes (materialize digest texts read token) disk
      (Rainfall.materialize digest read token disk.host) := by
  refine .consult fun state _ => ?_
  cases state.generations.lookup state.currentGeneration with
  | none => exact rfl
  | some record =>
    refine .consult fun _ _ => ?_
    cases record.traceFile with
    | none => exact rfl
    | some file =>
      refine .consult fun _ _ => .consult fun events _ => .consult fun _ _ => ?_
      rcases named "fine.match-witness" events with _ | ⟨witness, _ | ⟨_, _⟩⟩
      · exact rfl
      · exact .consult fun _ _ => .consult fun _ _ => .consult fun _ _ =>
          advanceLocked_realizes _ _ _
      · exact rfl

theorem retainTrace_realizes {trace : Bytes} {next : Unit → Effectful Disk β}
    (tail : ∀ host, Realizes (next ()) { disk with host := host } (more host)) :
    Realizes (retainTrace texts path trace >>= next) disk
      (Rainfall.retainTrace disk.host path trace >>= more) := by
  have same : retainTrace texts path trace disk = _ := Effectful.look_bind_of_ok rfl
  rw [Rainfall.retainTrace]
  cases there : disk.host.files.lookup path with
  | none =>
    rw [there] at same
    exact .congr same (.write tail)
  | some artifact =>
    rw [there] at same
    cases artifact with
    | request _ => exact .congr same rfl
    | bytes content =>
      refine .congr same ?_
      rw [bind_assoc]
      exact .consult fun _ _ => tail disk.host

theorem finishCompletion_realizes (pending : Pending) :
    Realizes (finishCompletion digest texts pending) disk
      (Rainfall.finishCompletion digest pending disk.host) := by
  refine .consult fun state _ => ?_
  cases state.generations.lookup pending.generation with
  | none => exact rfl
  | some record =>
    cases state.generations.lookup state.currentGeneration with
    | none => exact rfl
    | some current =>
      exact .consult fun _ _ => .consult fun _ _ => retainTrace_realizes fun _ => ⟨rfl, rfl⟩

theorem markFailed_realizes (generation error : String) :
    Realizes (markFailed digest texts generation error) disk
      (return (← Rainfall.markFailed digest generation error disk.host, ())) := by
  rw [Rainfall.markFailed, bind_assoc]
  refine .consult fun state _ => ?_
  cases state.generations.lookup generation with
  | none => exact rfl
  | some record =>
    rw [bind_assoc]
    exact .consult fun _ _ => ⟨rfl, rfl⟩

end Realized

end Durable

end Fine.Rainfall
