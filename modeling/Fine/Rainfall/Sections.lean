import Fine.Library.Scan
import Fine.Rainfall.Host

/-!
# What a locked section does

`Commits` lists the effects of a section that succeeds; later results are case analyses on it.
-/

namespace Fine.Rainfall

variable {digest : Digest} {read : Bytes → Except String (List Json)}

/-- The state file holds a state that passes its checks. -/
structure Loaded (digest : Digest) (host : Host) (state : State) : Prop where
  stored : host.state = some state
  checked : checkState digest state = .ok ()

variable {host later : Host} {state : State} {token : Token} {pending : Pending}

theorem loadState_ok : loadState digest host = .ok state ↔ Loaded digest host state := by
  rw [loadState]
  cases stored : host.state with
  | none =>
    constructor
    · intro same
      cases same
    · intro loaded
      rw [loaded.stored] at stored
      cases stored
  | some found =>
    simp only [unit_bind_ok, pure_ok_iff]
    constructor
    · rintro ⟨checked, rfl⟩
      exact ⟨stored, checked⟩
    · intro loaded
      have same : found = state := Option.some.inj (stored.symm.trans loaded.stored)
      exact ⟨same ▸ loaded.checked, same⟩

def requestOf (digest : Digest) (document : String) (revision : Nat) (source : Bytes)
    (token : Token) : Request :=
  ⟨generationName revision token, sourceIdentity digest source document revision,
    rainArguments (sourceIdentity digest source document revision)
      (generationName revision token)⟩

/-- The record of a generation when it is issued. -/
def recordOf (digest : Digest) (document : String) (revision : Nat) (source : Bytes)
    (token : Token) : Record :=
  ⟨.requested, requestOf digest document revision source token, sourceFile revision token,
    requestFile revision token, none, none, none⟩

/-- A state with a generation issued for what it displays. -/
def State.issue (digest : Digest) (source : Bytes) (token : Token) (state : State) : State :=
  { state with
    generations := state.generations.insert
      (generationName state.displaySnapshot.revision token)
      (recordOf digest state.document.id state.displaySnapshot.revision source token)
    currentGeneration := generationName state.displaySnapshot.revision token }

/-- A directory with the files of an issued generation. -/
def Host.issue (digest : Digest) (document : String) (revision : Nat) (source : Bytes)
    (token : Token) (host : Host) : Host :=
  { host with
    files := (host.files.insert (sourceFile revision token) (.bytes source)).insert
      (requestFile revision token) (.request (requestOf digest document revision source token)) }

variable {path : Path} {source trace : Bytes} {value : Json} {edits : List Edit} {action : Action}
  {text generation : String} {admission : Admission} {record : Record}

theorem writeImmutable_ok {content : Artifact} :
    writeImmutable host path content = .ok later ↔ host.files.lookup path = none ∧
      { host with files := host.files.insert path content } = later := by
  rw [writeImmutable, require_bind_ok, pure_ok_iff, Option.isNone_iff_eq_none]

theorem sourceFile_ne_requestFile (revision other : Nat) (token another : Token) :
    sourceFile revision token ≠ requestFile other another := by
  intro same
  have parts := List.cons.inj same
  exact absurd parts.1 (by decide)

theorem issueGeneration_ok {issued : State}
    (run : issueGeneration digest host state source token = .ok (later, issued)) :
    state.document.id ≠ "" ∧
      host.files.lookup (sourceFile state.displaySnapshot.revision token) = none ∧
      issued = state.issue digest source token ∧
      later = host.issue digest state.document.id state.displaySnapshot.revision source token := by
  simp only [issueGeneration, bind_ok_iff, makeRequest, writeImmutable_ok] at run
  obtain ⟨request, ⟨_, named, _, _, made⟩, _, ⟨fresh, rfl⟩, _, ⟨_, rfl⟩, same⟩ := run
  cases pure_ok_iff.mp made
  cases pure_ok_iff.mp same
  exact ⟨bne_iff_ne.mp (require_ok.mp named), fresh, rfl, rfl⟩

theorem generationName_ne (revision : Nat) (token : Token) : generationName revision token ≠ "" := by
  intro same
  have size := congrArg String.length same
  simp only [generationName, String.length_append, token.length_eq] at size
  have none : "".length = 0 := rfl
  omega

theorem issueGeneration_of (source : Bytes) (document : state.document.id ≠ "")
    (sourceNew : host.files.lookup (sourceFile state.displaySnapshot.revision token) = none)
    (requestNew : host.files.lookup (requestFile state.displaySnapshot.revision token) = none) :
    issueGeneration digest host state source token =
      .ok (host.issue digest state.document.id state.displaySnapshot.revision source token,
        state.issue digest source token) := by
  have name := generationName_ne state.displaySnapshot.revision token
  have other := (sourceFile_ne_requestFile state.displaySnapshot.revision
    state.displaySnapshot.revision token token).symm
  simp only [issueGeneration, makeRequest, bind_ok_iff, writeImmutable_ok, pure_ok_iff]
  exact ⟨_, ⟨(), require_ok.mpr (bne_iff_ne.mpr document), (), require_ok.mpr (bne_iff_ne.mpr name),
    rfl⟩, _, ⟨sourceNew, rfl⟩, _, ⟨by rwa [AList.lookup_insert_ne other], rfl⟩, rfl⟩

theorem launchDescription_issue (source : Bytes) (token : Token) (state : State) :
    ∃ action, launchDescription (state.issue digest source token) = .ok action := by
  simp [launchDescription, State.issue]

def State.advance (digest : Digest) (displayed : Bytes) (text : String) (edits : List Edit)
    (previous : Record) (state : State) : State :=
  { state with
    generations := state.generations.insert state.currentGeneration (supersede previous)
    displaySnapshot := sourceIdentity digest displayed state.document.id
      (state.displaySnapshot.revision + 1)
    displaySource := text
    annotations := state.annotations.map (transportAnnotationSpan displayed edits) }

/-- A transaction that is committed. -/
structure Advances (digest : Digest) (host later : Host) (state : State) (value : Json)
    (edits : List Edit) (token : Token) : Prop where
  loaded : Loaded digest host state
  edits_eq : loadEdits value (Utf8.encode state.displaySource).length = .ok edits
  nonempty : edits ≠ []
  advanced : ∃ text previous,
    Utf8.decode (applyEdits (Utf8.encode state.displaySource) edits) = some text ∧
    state.generations.lookup state.currentGeneration = some previous ∧
    state.document.id ≠ "" ∧
    host.files.lookup (sourceFile (state.displaySnapshot.revision + 1) token) = none ∧
    later = saveState
      (host.issue digest state.document.id (state.displaySnapshot.revision + 1)
        (applyEdits (Utf8.encode state.displaySource) edits) token)
      ((state.advance digest (applyEdits (Utf8.encode state.displaySource) edits) text edits
        previous).issue digest (applyEdits (Utf8.encode state.displaySource) edits) token)

theorem advanceLocked_ok (loaded : Loaded digest host state)
    (edits_eq : loadEdits value (Utf8.encode state.displaySource).length = .ok edits)
    (run : advanceLocked digest host state edits token = .ok (later, action)) :
    Advances digest host later state value edits token ∧
      ∃ advanced, later.state = some advanced ∧ launchDescription advanced = .ok action := by
  simp only [advanceLocked, require_bind_ok] at run
  obtain ⟨nonempty, run⟩ := run
  have some_edit : edits ≠ [] := by
    rintro rfl
    cases nonempty
  cases decoded : Utf8.decode (applyEdits (Utf8.encode state.displaySource) edits) with
  | none =>
    rw [decoded] at run
    cases run
  | some text =>
    cases current : state.generations.lookup state.currentGeneration with
    | none =>
      rw [decoded, current] at run
      cases run
    | some previous =>
      rw [decoded, current] at run
      simp only [bind_ok_iff] at run
      obtain ⟨⟨middle, issued⟩, made, told, launch, same⟩ := run
      obtain ⟨document, fresh, rfl, rfl⟩ := issueGeneration_ok made
      cases pure_ok_iff.mp same
      exact ⟨⟨loaded, edits_eq, some_edit, text, previous, decoded, current, document, fresh, rfl⟩,
        _, rfl, launch⟩

/-- The revision that a transaction is committed as. -/
def Host.advanced (digest : Digest) (host : Host) (state : State) (edits : List Edit) (text : String)
    (previous : Record) (token : Token) : Host :=
  saveState
    (host.issue digest state.document.id (state.displaySnapshot.revision + 1)
      (applyEdits (Utf8.encode state.displaySource) edits) token)
    ((state.advance digest (applyEdits (Utf8.encode state.displaySource) edits) text edits
      previous).issue digest (applyEdits (Utf8.encode state.displaySource) edits) token)

/-- A transaction on text is committed when the files of its generation are new. -/
theorem advance_of {previous : Record} (checked : checkState digest state = .ok ())
    (edits_eq : loadEdits value (Utf8.encode state.displaySource).length = .ok edits)
    (nonempty : edits ≠ [])
    (decoded : Utf8.decode (applyEdits (Utf8.encode state.displaySource) edits) = some text)
    (current : state.generations.lookup state.currentGeneration = some previous)
    (document : state.document.id ≠ "") :
    ∃ action, ∀ host : Host, host.state = some state →
      host.files.lookup (sourceFile (state.displaySnapshot.revision + 1) token) = none →
      host.files.lookup (requestFile (state.displaySnapshot.revision + 1) token) = none →
      advance digest value token host =
        .ok (host.advanced digest state edits text previous token, action) := by
  obtain ⟨action, told⟩ := @launchDescription_issue digest
    (applyEdits (Utf8.encode state.displaySource) edits) token
    (state.advance digest (applyEdits (Utf8.encode state.displaySource) edits) text edits previous)
  refine ⟨action, fun host stored sourceNew requestNew => ?_⟩
  have issued := @issueGeneration_of digest host
    (state.advance digest (applyEdits (Utf8.encode state.displaySource) edits) text edits previous)
    token (applyEdits (Utf8.encode state.displaySource) edits) document sourceNew requestNew
  simp only [advance, bind_ok_iff, loadState_ok]
  refine ⟨state, ⟨stored, checked⟩, edits, edits_eq, ?_⟩
  simp only [advanceLocked, require_bind_ok, decoded, current]
  exact ⟨by simpa using nonempty, bind_ok_iff.mpr ⟨_, issued, bind_ok_iff.mpr ⟨_, told, rfl⟩⟩⟩

theorem advance_ok (run : advance digest value token host = .ok (later, action)) :
    ∃ state edits, Advances digest host later state value edits token := by
  simp only [advance, bind_ok_iff] at run
  obtain ⟨state, loaded, edits, edits_eq, run⟩ := run
  exact ⟨state, edits, (advanceLocked_ok (loadState_ok.mp loaded) edits_eq run).1⟩

/-- The admitted trace's replacements are committed. -/
theorem materialize_ok (run : materialize digest read token host = .ok (later, action)) :
    ∃ state value edits, Advances digest host later state value edits token := by
  rw [materialize, bind_ok_iff] at run
  obtain ⟨state, loaded, run⟩ := run
  cases current : state.generations.lookup state.currentGeneration with
  | none =>
    rw [current] at run
    cases run
  | some record =>
    rw [current] at run
    simp only [require_bind_ok] at run
    obtain ⟨_, run⟩ := run
    cases file : record.traceFile with
    | none =>
      rw [file] at run
      cases run
    | some path =>
      rw [file] at run
      simp only [bind_ok_iff] at run
      obtain ⟨_, _, events, _, _, _, run⟩ := run
      cases witnesses : named "fine.match-witness" events with
      | nil =>
        rw [witnesses] at run
        cases run
      | cons witness rest =>
        cases rest with
        | cons _ _ =>
          rw [witnesses] at run
          cases run
        | nil =>
          rw [witnesses] at run
          simp only [bind_ok_iff] at run
          obtain ⟨_, _, _, _, edits, edits_eq, run⟩ := run
          exact ⟨state, _, edits, (advanceLocked_ok (loadState_ok.mp loaded) edits_eq run).1⟩

/-- A completion that is recorded. -/
structure Finishes (digest : Digest) (host later : Host) (state : State) (pending : Pending)
    (record current : Record) (admission : Admission) : Prop where
  loaded : Loaded digest host state
  record_eq : state.generations.lookup pending.generation = some record
  current_eq : state.generations.lookup state.currentGeneration = some current
  open_ : record.status.isOpen = true
  admitted : admitReplay digest current.request (Utf8.encode state.displaySource)
    pending.candidateSource pending.events = .ok admission
  kept : ∃ middle : Host, middle.state = host.state ∧
    (∀ path content, host.files.lookup path = some content →
      middle.files.lookup path = some content) ∧
    later = saveState middle { state with
      generations := state.generations.insert pending.generation { record with
        status := admission.status
        admission := some admission
        traceFile := some (traceFile pending.generation) }
      annotations := admission.annotations state.annotations }

theorem retainTrace_ok (run : retainTrace host path trace = .ok later) : later.state = host.state ∧
      ∀ place content, host.files.lookup place = some content →
        later.files.lookup place = some content := by
  rw [retainTrace] at run
  cases found : host.files.lookup path with
  | none =>
    rw [found] at run
    obtain ⟨fresh, rfl⟩ := writeImmutable_ok.mp run
    refine ⟨rfl, fun place content there => ?_⟩
    have other : place ≠ path := by
      rintro rfl
      rw [there] at fresh
      cases fresh
    rw [AList.lookup_insert_ne other]
    exact there
  | some artifact =>
    rw [found] at run
    cases artifact with
    | request _ => cases run
    | bytes content =>
      rw [require_bind_ok, pure_ok_iff] at run
      obtain ⟨_, rfl⟩ := run
      exact ⟨rfl, fun _ _ there => there⟩

theorem finishCompletion_ok (run : finishCompletion digest pending host = .ok (later, admission)) :
    ∃ state record current, Finishes digest host later state pending record current admission := by
  rw [finishCompletion, bind_ok_iff] at run
  obtain ⟨state, loaded, run⟩ := run
  cases named : state.generations.lookup pending.generation with
  | none =>
    rw [named] at run
    cases run
  | some record =>
    cases current : state.generations.lookup state.currentGeneration with
    | none =>
      rw [named, current] at run
      cases run
    | some currentRecord =>
      rw [named, current] at run
      simp only [require_bind_ok] at run
      obtain ⟨open_, run⟩ := run
      simp only [bind_ok_iff] at run
      obtain ⟨found, admitted, middle, retained, same⟩ := run
      obtain ⟨stored, files⟩ := retainTrace_ok retained
      cases pure_ok_iff.mp same
      exact ⟨state, record, currentRecord, loadState_ok.mp loaded, named, current, open_, admitted,
        middle, stored, files, rfl⟩

theorem finishCompletion_eq {current : Record} (loaded : Loaded digest host state)
    (record_eq : state.generations.lookup pending.generation = some record)
    (current_eq : state.generations.lookup state.currentGeneration = some current)
    (open_ : record.status.isOpen = true)
    (admitted : admitReplay digest current.request (Utf8.encode state.displaySource)
      pending.candidateSource pending.events = .ok admission) :
    finishCompletion digest pending host = do
      let host ← retainTrace host (traceFile pending.generation) pending.trace
      return (saveState host { state with
        generations := state.generations.insert pending.generation { record with
          status := admission.status
          admission := some admission
          traceFile := some (traceFile pending.generation) }
        annotations := admission.annotations state.annotations }, admission) := by
  rw [finishCompletion, loadState_ok.mpr loaded]
  simp only [ok_bind, record_eq, current_eq]
  rw [open_, admitted]
  rfl

/-- A completion that was begun. -/
structure Begins (digest : Digest) (read : Bytes → Except String (List Json)) (host : Host)
    (state : State) (pending : Pending) (record : Record) : Prop where
  loaded : Loaded digest host state
  record_eq : state.generations.lookup pending.generation = some record
  open_ : record.status.isOpen = true
  source : host.files.lookup record.sourceFile = some (.bytes pending.candidateSource)
  events : read pending.trace = .ok pending.events
  accepted : ReplayAccepted digest pending.candidateSource pending.events

theorem readBytes_ok {content : Bytes} :
    readBytes host path = .ok content ↔ host.files.lookup path = some (.bytes content) := by
  rw [readBytes]
  cases found : host.files.lookup path with
  | none =>
    constructor <;> intro same <;> cases same
  | some artifact =>
    cases artifact with
    | request _ => constructor <;> intro same <;> cases same
    | bytes bytes => simp

theorem beginCompletion_ok (run : beginCompletion digest read generation trace host = .ok pending) :
    pending.generation = generation ∧ pending.trace = trace ∧
      ∃ state record, Begins digest read host state pending record := by
  rw [beginCompletion, bind_ok_iff] at run
  obtain ⟨state, loaded, run⟩ := run
  cases named : state.generations.lookup generation with
  | none =>
    rw [named] at run
    cases run
  | some record =>
    rw [named] at run
    simp only [require_bind_ok] at run
    obtain ⟨open_, run⟩ := run
    simp only [bind_ok_iff, readBytes_ok] at run
    obtain ⟨candidate, source, events, events_eq, counts, validated, same⟩ := run
    cases pure_ok_iff.mp same
    exact ⟨rfl, rfl, state, record, loadState_ok.mp loaded, named, open_, source, events_eq,
      validate_ok_iff.mp ⟨counts, validated⟩⟩

theorem beginCompletion_of (begins : Begins digest read host state pending record) :
    beginCompletion digest read pending.generation pending.trace host = .ok pending := by
  obtain ⟨counts, validated⟩ := validate_ok_iff.mpr begins.accepted
  rw [beginCompletion, bind_ok_iff]
  refine ⟨state, loadState_ok.mpr begins.loaded, ?_⟩
  simp only [begins.record_eq, bind_ok_iff, readBytes_ok, require_ok]
  exact ⟨(), begins.open_, _, begins.source, _, begins.events, counts, validated, rfl⟩

/-- A run that failed. -/
structure Fails (digest : Digest) (host later : Host) (state : State) (generation error : String)
    (record : Record) : Prop where
  loaded : Loaded digest host state
  record_eq : state.generations.lookup generation = some record
  open_ : record.status.isOpen = true
  later_eq : later = saveState host { state with
    generations := state.generations.insert generation { record with
      status := .failed
      failure := some ⟨generation, error⟩ } }

theorem markFailed_ok {error : String} (run : markFailed digest generation error host = .ok later) :
    ∃ state record, Fails digest host later state generation error record := by
  rw [markFailed, bind_ok_iff] at run
  obtain ⟨state, loaded, run⟩ := run
  cases named : state.generations.lookup generation with
  | none =>
    rw [named] at run
    cases run
  | some record =>
    rw [named] at run
    simp only [require_bind_ok] at run
    obtain ⟨open_, same⟩ := run
    exact ⟨state, record, loadState_ok.mp loaded, named, open_, (pure_ok_iff.mp same).symm⟩

/-- A host that was opened. -/
structure Opens (digest : Digest) (host later : Host) (source : Bytes) (displayName : String)
    (token : Token) : Prop where
  absent : host.state = none
  opened : ∃ text documentId, Utf8.decode source = some text ∧ documentId ≠ "" ∧
    host.files.lookup (sourceFile 0 token) = none ∧
    later = saveState (host.issue digest documentId 0 source token)
      (State.issue digest source token ⟨⟨documentId, displayName⟩,
        sourceIdentity digest source documentId 0, text, "", ∅, []⟩)

theorem initializeHost_ok {displayName : String} {document : Option String}
    {documentToken : DocumentToken}
    (run : initializeHost digest source displayName document documentToken token host =
      .ok (later, action)) : Opens digest host later source displayName token := by
  unfold initializeHost at run
  cases decoded : Utf8.decode source with
  | none =>
    rw [decoded] at run
    cases run
  | some text =>
    rw [decoded] at run
    simp only [require_bind_ok] at run
    obtain ⟨absent, _, run⟩ := run
    simp only [bind_ok_iff] at run
    obtain ⟨⟨middle, issued⟩, made, _, _, same⟩ := run
    obtain ⟨named, fresh, rfl, rfl⟩ := issueGeneration_ok made
    cases pure_ok_iff.mp same
    exact ⟨Option.isNone_iff_eq_none.mp absent, text, _, decoded, named, fresh, rfl⟩

/-- A host is opened on text when there is none and its files are new. -/
theorem initializeHost_of (decoded : Utf8.decode source = some text) (displayName : String)
    (document : Option String) (documentToken : DocumentToken) (token : Token) :
    ∃ documentId state action, ∀ host : Host, host.state = none →
      host.files.lookup (sourceFile 0 token) = none →
      host.files.lookup (requestFile 0 token) = none →
      initializeHost digest source displayName document documentToken token host =
        .ok (saveState (host.issue digest documentId 0 source token) state, action) := by
  -- Whichever name the document gets, it is not empty.
  have opened : ∀ documentId ≠ "", (∀ host, initializeHost digest source displayName document
      documentToken token host = do
        require host.state.isNone "host is already initialized"
        require (documentId != "") "document ID is empty"
        let issued ← issueGeneration digest host ⟨⟨documentId, displayName⟩,
          sourceIdentity digest source documentId 0, text, "", ∅, []⟩ source token
        let action ← launchDescription issued.2
        return (saveState issued.1 issued.2, action)) →
      ∃ documentId state action, ∀ host : Host, host.state = none →
        host.files.lookup (sourceFile 0 token) = none →
        host.files.lookup (requestFile 0 token) = none →
        initializeHost digest source displayName document documentToken token host =
          .ok (saveState (host.issue digest documentId 0 source token) state, action) := by
    intro documentId named unfolded
    obtain ⟨action, told⟩ := @launchDescription_issue digest source token
      ⟨⟨documentId, displayName⟩, sourceIdentity digest source documentId 0, text, "", ∅, []⟩
    refine ⟨documentId, State.issue digest source token ⟨⟨documentId, displayName⟩,
      sourceIdentity digest source documentId 0, text, "", ∅, []⟩, action,
      fun host absent sourceNew requestNew => ?_⟩
    rw [unfolded host]
    simp only [require_bind_ok]
    exact ⟨by simp [absent], bne_iff_ne.mpr named, bind_ok_iff.mpr
      ⟨_, issueGeneration_of source named sourceNew requestNew, bind_ok_iff.mpr ⟨_, told, rfl⟩⟩⟩
  have drawn : "document:" ++ documentToken.text ≠ "" := by
    intro same
    have size := congrArg String.length same
    simp only [String.length_append, documentToken.length_eq] at size
    have none : "".length = 0 := rfl
    omega
  cases document with
  | none => exact opened _ drawn fun host => by simp only [initializeHost, decoded]
  | some given =>
    by_cases empty : given = ""
    · exact opened _ drawn fun host => by simp only [initializeHost, decoded, if_pos empty]
    · exact opened _ empty fun host => by simp only [initializeHost, decoded, if_neg empty]

/-- The effect of a section that succeeds. -/
inductive Commits (digest : Digest) (read : Bytes → Except String (List Json)) (system : System) :
    Call → System → Prop where
  | opened {source : Bytes} {displayName : String} {document : Option String}
    {documentToken : DocumentToken} {token : Token} {later : Host}
    (opens : Opens digest system.host later source displayName token) :
    Commits digest read system (.initialize_ source displayName document documentToken token)
      { system with host := later }
  | advanced {value : Json} {token : Token} {state : State} {edits : List Edit} {later : Host}
    (advances : Advances digest system.host later state value edits token) :
    Commits digest read system (.advance value token) { system with host := later }
  | materialized {value : Json} {token : Token} {state : State} {edits : List Edit} {later : Host}
    (advances : Advances digest system.host later state value edits token) :
    Commits digest read system (.materialize token) { system with host := later }
  | began {generation : String} {trace : Bytes} {state : State} {pending : Pending}
    {record : Record} (begins : Begins digest read system.host state pending record)
    (generation_eq : pending.generation = generation) (trace_eq : pending.trace = trace) :
    Commits digest read system (.begin_ generation trace)
      { system with pending := pending :: system.pending }
  | finished {pending : Pending} {state : State} {record current : Record}
    {admission : Admission} {later : Host}
    (finishes : Finishes digest system.host later state pending record current admission) :
    Commits digest read system (.finish pending) { system with host := later }
  | failed {generation error : String} {state : State} {record : Record} {later : Host}
    (fails : Fails digest system.host later state generation error record) :
    Commits digest read system (.markFailed generation error) { system with host := later }

/-- Every section that succeeds has one of these effects. -/
theorem call_ok {system later : System} {call : Call}
    (run : system.call digest read call = .ok later) : Commits digest read system call later := by
  cases call with
  | initialize_ source displayName document documentToken token =>
    obtain ⟨⟨host, action⟩, made, same⟩ := bind_ok_iff.mp run
    cases pure_ok_iff.mp same
    exact .opened (initializeHost_ok made)
  | advance value token =>
    obtain ⟨⟨host, action⟩, made, same⟩ := bind_ok_iff.mp run
    cases pure_ok_iff.mp same
    obtain ⟨state, edits, advances⟩ := advance_ok made
    exact .advanced advances
  | begin_ generation trace =>
    obtain ⟨pending, made, same⟩ := bind_ok_iff.mp run
    cases pure_ok_iff.mp same
    obtain ⟨generation_eq, trace_eq, state, record, begins⟩ := beginCompletion_ok made
    exact .began begins generation_eq trace_eq
  | finish pending =>
    obtain ⟨⟨host, admission⟩, made, same⟩ := bind_ok_iff.mp run
    cases pure_ok_iff.mp same
    obtain ⟨state, record, current, finishes⟩ := finishCompletion_ok made
    exact .finished finishes
  | markFailed generation error =>
    obtain ⟨host, made, same⟩ := bind_ok_iff.mp run
    cases pure_ok_iff.mp same
    obtain ⟨state, record, fails⟩ := markFailed_ok made
    exact .failed fails
  | materialize token =>
    obtain ⟨⟨host, action⟩, made, same⟩ := bind_ok_iff.mp run
    cases pure_ok_iff.mp same
    obtain ⟨state, value, edits, advances⟩ := materialize_ok made
    exact .materialized advances

theorem next_cases (system : System) (call : Call) :
    Commits digest read system call (system.next digest read call) ∨
      (∃ message, system.call digest read call = .error message) ∧
        system.next digest read call = system := by
  rw [System.next]
  cases run : system.call digest read call with
  | ok later => exact .inl (call_ok run)
  | error message => exact .inr ⟨⟨message, rfl⟩, rfl⟩

end Fine.Rainfall
