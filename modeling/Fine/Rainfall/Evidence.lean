import Fine.Rainfall.Generations
import Mathlib

/-!
# Current evidence

Annotations become current when a completion is admitted, and stop being current with the next edit.
-/

namespace Fine.Rainfall

open List

variable {digest : Digest} {read : Bytes → Except String (List Json)}

def State.ShowsCurrent (state : State) : Prop :=
  ∃ mark ∈ state.annotations, mark.status = .current

theorem transportAnnotation_status (displayed : Bytes) (edits : List Edit)
    (mark : Annotation) :
    (transportAnnotationSpan displayed edits mark).status ≠ .current := by
  rw [transportAnnotationSpan]
  cases mark.displaySpan with
  | none => simp
  | some span =>
    cases moved : transportRange span.start.offset span.stop.offset edits with
    | none | some mapped => simp [moved]

variable {state : State} {system : System}

variable {host later : Host} {advanced : State} {value : Json} {edits : List Edit} {token : Token}
  {call : Call} {source : Bytes} {calls : List Call} {pending : Pending} {record : Record}
  {generation : String}

theorem Advances.not_current (advances : Advances digest host later state value edits token)
    (stored : later.state = some advanced) : ¬ advanced.ShowsCurrent := by
  obtain ⟨text, previous, _, _, _, _, rfl⟩ := advances.advanced
  cases stored
  rintro ⟨mark, member, current⟩
  obtain ⟨old, _, rfl⟩ := mem_map.mp member
  exact transportAnnotation_status _ _ old current

/-- The fields of a snapshot are those of an identity. -/
structure SameIdentity (snapshot : Json) (identity : Identity) : Prop where
  document : (snapshot.get "identity").get "document" = .text identity.document
  revision : ((snapshot.get "identity").get "revision").isNumber identity.revision = true
  hash : (snapshot.get "identity").get "exact_source_hash" = .text identity.exactSourceHash
  byteLength : ((snapshot.get "identity").get "byte_length").isNumber identity.byteLength = true

/-- What backs shown evidence: an admitted replay of the displayed source and the current
generation, which is projected to it. -/
structure Backed (digest : Digest) (source : Bytes) (state : State) (pending : Pending) :
    Prop where
  accepted : ∃ counts, validate digest source pending.events = .ok counts
  run : (pending.events.headD .null).get "run" = .text state.currentGeneration
  snapshot : ∃ event, named "source.snapshot.declare" pending.events = [event] ∧
    SameIdentity (dataOf event) state.displaySnapshot
  projected : ∃ projection displayed,
    project digest source pending.events [] = .ok (projection, displayed) ∧
      state.annotations = projection.annotations

/-- The source is kept as the source of a generation. -/
def Host.Retains (host : Host) (source : Bytes) : Prop :=
  ∃ revision token, host.files.lookup (sourceFile revision token) = some (.bytes source)

/-- The sources of the generations and the displayed one. -/
def System.Occurs (system : System) (source : Bytes) : Prop :=
  system.host.Retains source ∨
    ∃ state, system.host.state = some state ∧ source = Utf8.encode state.displaySource

theorem Commits.retains {later : System} (commits : Commits digest read system call later)
    (retains : system.host.Retains source) : later.host.Retains source := by
  obtain ⟨revision, token, there⟩ := retains
  cases commits with
  | opened opens =>
    obtain ⟨text, documentId, _, _, fresh, rfl⟩ := opens.opened
    exact ⟨revision, token, Host.issue_files fresh there ⟨_, _, rfl⟩⟩
  | advanced advances | materialized advances =>
    obtain ⟨text, previous, _, _, _, fresh, rfl⟩ := advances.advanced
    exact ⟨revision, token, Host.issue_files fresh there ⟨_, _, rfl⟩⟩
  | began begins generation_eq trace_eq => exact ⟨revision, token, there⟩
  | finished finishes =>
    obtain ⟨middle, _, files, rfl⟩ := finishes.kept
    exact ⟨revision, token, files _ _ there⟩
  | failed fails =>
    obtain rfl := fails.later_eq
    exact ⟨revision, token, there⟩

/-- The source of a begun completion is kept. -/
def System.PendingKept (system : System) : Prop :=
  ∀ pending ∈ system.pending, system.host.Retains pending.candidateSource

theorem Commits.pendingKept {later : System} (commits : Commits digest read system call later)
    (indexed : system.Indexed digest) (kept : system.PendingKept) : later.PendingKept := by
  have step {pending : Pending} (member : pending ∈ system.pending) :
      later.host.Retains pending.candidateSource := commits.retains (kept pending member)
  cases commits with
  | began begins generation_eq trace_eq =>
    intro pending member
    rcases mem_cons.mp member with rfl | member
    · obtain ⟨revision, source, token, issued⟩ :=
        (indexed _ begins.loaded.stored).issued _ _ begins.record_eq
      have there := begins.source
      rw [issued.sourceFile] at there
      exact ⟨revision, token, there⟩
    · exact kept pending member
  | opened opens | advanced advances | materialized advances | finished finishes | failed fails =>
    exact fun pending member => step member

theorem Reaches.pendingKept (reached : Reaches digest read System.empty calls system) :
    system.PendingKept := by
  have start : System.empty.Indexed digest ∧ System.empty.PendingKept := by
    constructor
    · intro _ stored
      cases stored
    · intro _ member
      cases member
  have both := reached.keeps (fun system => system.Indexed digest ∧ system.PendingKept)
    (fun commits _ both => ⟨commits.indexed both.1, commits.pendingKept both.1 both.2⟩) start
  exact both.2

/-- What an admitted completion leaves in the state. -/
theorem Finishes.backed {current : Record} {snapshot : Json} {projection : Projection}
    (finishes : Finishes digest host later state pending record current
      (.admitted generation snapshot projection)) (indexed : Indexed digest host state) :
    generation = state.currentGeneration ∧ SameIdentity snapshot state.displaySnapshot ∧
      ∃ shown, later.state = some shown ∧
      Backed digest pending.candidateSource shown pending ∧
      digest.identity pending.candidateSource =
        digest.identity (Utf8.encode shown.displaySource) ∧
      shown.displaySnapshot = state.displaySnapshot ∧
      shown.currentGeneration = state.currentGeneration ∧
      shown.generations.lookup pending.generation = some { record with
        status := .admitted
        admission := some (.admitted generation snapshot projection)
        traceFile := some (traceFile pending.generation) } := by
  obtain ⟨generation_eq, admitted⟩ := admit_admitted finishes.admitted
  obtain ⟨middle, _, _, rfl⟩ := finishes.kept
  obtain ⟨found, found_eq, request⟩ := indexed.current
  obtain rfl : found = current := Option.some.inj (found_eq.symm.trans finishes.current_eq)
  obtain ⟨revision, source, token, issued⟩ := indexed.issued _ _ found_eq
  have name : found.request.generation = state.currentGeneration := by
    rw [issued.request, issued.name]
    rfl
  obtain ⟨event, one, snapshot_eq⟩ := admitted.snapshot_eq
  obtain ⟨displayed, projected⟩ := admitted.projected
  have same : SameIdentity snapshot state.displaySnapshot := by
    rw [← request]
    exact ⟨admitted.document, admitted.revision, admitted.hash, admitted.byteLength⟩
  refine ⟨generation_eq.trans name, same, _, rfl, ?_, ?_, rfl, rfl, AList.lookup_insert _⟩
  · exact ⟨validate_ok_iff.mpr admitted.accepted, admitted.run.trans (by rw [name]),
      ⟨event, one, snapshot_eq ▸ same⟩, projection, displayed, projected, rfl⟩
  · obtain ⟨_, checked⟩ := admitted.checked
    have hash := checked.hash
    rw [same.hash, indexed.identity] at hash
    exact (Json.text.inj hash).symm

/-- A completion that took effect backs what a state shows, and no edit did since. -/
structure BackedIn (digest : Digest) (read : Bytes → Except String (List Json))
    (calls : List Call) (system : System) (state : State) (pending : Pending)
    (before after : List Call) (middle : System) : Prop where
  calls_eq : calls = before ++ .finish pending :: after
  reached : Reaches digest read System.empty before middle
  allowed : pending ∈ middle.pending
  effect : middle.succeeds digest read (.finish pending) = true
  noEdit : effective digest read Call.edits (middle.next digest read (.finish pending)) after = 0
  leads : Reaches digest read (middle.next digest read (.finish pending)) after system
  backed : Backed digest pending.candidateSource state pending
  hash : digest.identity pending.candidateSource =
    digest.identity (Utf8.encode state.displaySource)
  kept : system.host.Retains pending.candidateSource

theorem BackedIn.extend {later : State} {before after : List Call} {middle : System}
    (backed : BackedIn digest read calls system state pending before after middle)
    (allowed : system.allows call)
    (noEdit : (call.edits && system.succeeds digest read call) = false)
    (source : later.displaySource = state.displaySource)
    (snapshot : later.displaySnapshot = state.displaySnapshot)
    (generation : later.currentGeneration = state.currentGeneration)
    (annotations : later.annotations = state.annotations)
    (kept : (system.next digest read call).host.Retains pending.candidateSource) :
    BackedIn digest read (calls ++ [call]) (system.next digest read call) later pending before
      (after ++ [call]) middle := by
  refine ⟨?_, backed.reached, backed.allowed, backed.effect, ?_, backed.leads.step call allowed,
    ?_, ?_, kept⟩
  · rw [backed.calls_eq]
    simp
  · rw [effective_append, backed.noEdit, backed.leads.foldl_eq, noEdit]
    rfl
  · obtain ⟨accepted, run, ⟨event, one, same⟩, projection, displayed, projected, shown⟩ :=
      backed.backed
    exact ⟨accepted, by rw [generation]; exact run, ⟨event, one, by rw [snapshot]; exact same⟩,
      projection, displayed, projected, annotations.trans shown⟩
  · rw [source]
    exact backed.hash

/-- Current evidence was completed since the last edit. -/
theorem Reaches.backed (reached : Reaches digest read System.empty calls system)
    (stored : system.host.state = some state) (shows : state.ShowsCurrent) :
    ∃ pending before after middle,
      BackedIn digest read calls system state pending before after middle := by
  induction reached generalizing state with
  | start => cases stored
  | step before call allowed ih =>
    rename_i middle calls
    rcases succeeds_cases digest read middle call with ⟨effect, commits⟩ | ⟨failed, same⟩
    · -- A section that takes effect: only an admission makes evidence current.
      generalize next_eq : middle.next digest read call = next at commits stored
      cases commits with
      | opened opens =>
        obtain ⟨first, first_eq, _, none, _⟩ := opens.indexed
        cases first_eq.symm.trans stored
        obtain ⟨mark, member, _⟩ := shows
        rw [none] at member
        cases member
      | advanced advances | materialized advances =>
        exact absurd shows (advances.not_current stored)
      | began begins generation_eq trace_eq =>
        obtain ⟨pending, front, back, start, backed⟩ := ih stored shows
        rw [← next_eq]
        refine ⟨pending, front, back ++ [_], start, backed.extend allowed rfl rfl rfl rfl rfl ?_⟩
        rw [next_eq]
        exact backed.kept
      | finished finishes =>
        rename_i pending old record current admission host
        have indexed := before.indexed _ finishes.loaded.stored
        cases admission with
        | admitted generation snapshot projection =>
          obtain ⟨_, _, shown, shown_eq, backed, hash, _⟩ := finishes.backed indexed
          cases shown_eq.symm.trans stored
          refine ⟨pending, calls, [], middle, rfl, before, allowed, effect, rfl, ?_, backed, hash,
            ?_⟩
          · rw [next_eq]
            exact .start _
          · obtain ⟨_, _, files, rfl⟩ := finishes.kept
            obtain ⟨revision, token, there⟩ := before.pendingKept pending allowed
            exact ⟨revision, token, files _ _ there⟩
        | discarded reason requested run snapshot candidate =>
          obtain ⟨_, _, files, rfl⟩ := finishes.kept
          cases stored
          obtain ⟨other, front, back, start, backed⟩ := ih finishes.loaded.stored shows
          rw [← next_eq]
          refine ⟨other, front, back ++ [_], start, backed.extend allowed rfl rfl rfl rfl rfl ?_⟩
          rw [next_eq]
          obtain ⟨revision, token, there⟩ := backed.kept
          exact ⟨revision, token, files _ _ there⟩
      | failed fails =>
        obtain rfl := fails.later_eq
        cases stored
        obtain ⟨other, front, back, start, backed⟩ := ih fails.loaded.stored shows
        rw [← next_eq]
        refine ⟨other, front, back ++ [_], start, backed.extend allowed rfl rfl rfl rfl rfl ?_⟩
        rw [next_eq]
        exact backed.kept
    · rw [same] at stored
      obtain ⟨pending, front, back, start, backed⟩ := ih stored shows
      refine ⟨pending, front, back ++ [_], start, backed.extend allowed (by rw [failed]; simp) rfl
        rfl rfl rfl ?_⟩
      rw [same]
      exact backed.kept

theorem Digest.hex_of_identity {other : Bytes}
    (same : digest.identity source = digest.identity other) :
    digest.hex source = digest.hex other := by
  have letters := congrArg String.toList same
  simp only [Digest.identity, String.toList_append] at letters
  exact String.toList_inj.mp (append_cancel_left letters)

/-- In every state of every interleaving, what is shown as current is the projection of a replay
that was completed since the last edit and that the validator accepts for exactly the displayed
bytes, of the current generation and of the displayed snapshot. -/
theorem current_evidence_backed {calls : List Call} {system : System} {state : State}
    (injective : Set.InjOn digest.hex {source | system.Occurs source})
    (reached : Reaches digest read System.empty calls system)
    (stored : system.host.state = some state) (shows : state.ShowsCurrent) :
    ∃ pending before after middle, calls = before ++ .finish pending :: after ∧
      Reaches digest read System.empty before middle ∧ pending ∈ middle.pending ∧
      middle.succeeds digest read (.finish pending) = true ∧
      effective digest read Call.edits (middle.next digest read (.finish pending)) after = 0 ∧
      Backed digest (Utf8.encode state.displaySource) state pending := by
  obtain ⟨pending, before, after, middle, backed⟩ := reached.backed stored shows
  have same : pending.candidateSource = Utf8.encode state.displaySource :=
    injective (.inl backed.kept) (.inr ⟨state, stored, rfl⟩) (Digest.hex_of_identity backed.hash)
  exact ⟨pending, before, after, middle, backed.calls_eq, backed.reached, backed.allowed,
    backed.effect, backed.noEdit, same ▸ backed.backed⟩

theorem sampleDone_shows : ∃ state, (sampleDone 0).host.state = some state ∧
    state.ShowsCurrent ∧ state.displaySource = "x=1" := by
  have evaluated : ((sampleDone 0).host.state.map fun state =>
      (state.annotations.any fun mark => decide (mark.status = .current)) &&
        state.displaySource == "x=1") = some true := by decide +kernel
  obtain ⟨state, stored, holds⟩ := Option.map_eq_some_iff.mp evaluated
  obtain ⟨shows, source⟩ := Bool.and_eq_true_iff.mp holds
  obtain ⟨mark, member, current⟩ := any_eq_true.mp shows
  exact ⟨state, stored, ⟨mark, member, of_decide_eq_true current⟩, beq_iff_eq.mp source⟩

def Artifact.isOnly (source : Bytes) : Artifact → Bool
  | .bytes content => content == source
  | .request _ => true

theorem sampleDone_occurs (occurs : (sampleDone 0).Occurs source) : source = sampleSource := by
  rcases occurs with ⟨revision, token, there⟩ | ⟨state, stored, rfl⟩
  · have evaluated : (sampleDone 0).host.files.entries.all (fun entry =>
        entry.1.head? != some "sources" || entry.2.isOnly sampleSource) = true := by decide +kernel
    have holds := all_eq_true.mp evaluated _ (AList.mem_lookup_iff.mp there)
    simpa [sourceFile, Artifact.isOnly] using holds
  · obtain ⟨found, found_eq, _, text⟩ := sampleDone_shows
    cases found_eq.symm.trans stored
    rw [text]
    decide +kernel

/-- A completion's evidence is current and backed. -/
theorem current_evidence_backed_sample : ∃ state, (sampleDone 0).host.state = some state ∧
    state.ShowsCurrent ∧ ∃ pending before after middle,
      sampleCalls 0 = before ++ .finish pending :: after ∧
      Reaches Digest.sample (sampleReader 0 0) System.empty before middle ∧
      pending ∈ middle.pending ∧
      middle.succeeds Digest.sample (sampleReader 0 0) (.finish pending) = true ∧
      effective Digest.sample (sampleReader 0 0) Call.edits
        (middle.next Digest.sample (sampleReader 0 0) (.finish pending)) after = 0 ∧
      Backed Digest.sample (Utf8.encode state.displaySource) state pending := by
  obtain ⟨state, stored, shows, _⟩ := sampleDone_shows
  have injective : Set.InjOn Digest.sample.hex {source | (sampleDone 0).Occurs source} := by
    intro source here other there _
    rw [sampleDone_occurs here, sampleDone_occurs there]
  exact ⟨state, stored, shows, current_evidence_backed injective
    (reaches_sampleDone (by decide +kernel)) stored shows⟩

/-- Completions name the generation of their trace. -/
def OwnRuns (calls : List Call) : Prop :=
  ∀ pending, .finish pending ∈ calls →
    (pending.events.headD .null).get "run" = .text pending.generation

/-- The records of generations are about their own runs. -/
structure OwnRecords (state : State) : Prop where
  /-- An admitted generation holds the admission of its own run, about its own request. -/
  admitted : ∀ generation record, state.generations.lookup generation = some record →
    record.status = .admitted → ∃ snapshot projection,
      record.admission = some (.admitted generation snapshot projection) ∧
        SameIdentity snapshot record.request.displaySnapshot
  /-- Evidence is current only if the current generation is admitted. -/
  current : state.ShowsCurrent → ∃ record,
    state.generations.lookup state.currentGeneration = some record ∧ record.status = .admitted
  /-- At most one generation is admitted for a snapshot. -/
  once : ∀ generation another record other, state.generations.lookup generation = some record →
    state.generations.lookup another = some other → record.status = .admitted →
    other.status = .admitted → record.request.displaySnapshot = other.request.displaySnapshot →
    generation = another

theorem supersede_admission (record : Record) : (supersede record).admission = record.admission ∧
    ((supersede record).status = .admitted → record.status = .admitted) := by
  rw [supersede]
  split_ifs with asked
  · exact ⟨rfl, fun same => by cases same⟩
  · exact ⟨rfl, id⟩

/-- Records stay about their own runs at an end. -/
theorem OwnRecords.close (own : OwnRecords state) (indexed : Indexed digest host state)
    {closed : Record} {annotations : List Annotation}
    (record_eq : state.generations.lookup generation = some record)
    (request : closed.request = record.request) (wasOpen : record.status.isOpen = true)
    (admission : closed.status = .admitted → ∃ snapshot projection,
      closed.admission = some (.admitted generation snapshot projection) ∧
        SameIdentity snapshot record.request.displaySnapshot)
    (shown : (∃ mark ∈ annotations, mark.status = .current) → state.ShowsCurrent ∨
      generation = state.currentGeneration ∧ closed.status = .admitted) :
    OwnRecords { state with
      generations := state.generations.insert generation closed
      annotations := annotations } := by
  have before : ∀ name found, (state.generations.insert generation closed).lookup name =
      some found → ∃ old, state.generations.lookup name = some old ∧
        found.request = old.request := by
    intro name found there
    obtain ⟨rfl, rfl⟩ | ⟨_, there⟩ := lookup_insert_cases there
    · exact ⟨record, record_eq, request⟩
    · exact ⟨found, there, rfl⟩
  constructor
  · intro name found there status
    obtain ⟨rfl, rfl⟩ | ⟨_, there⟩ := lookup_insert_cases there
    · rw [request]
      exact admission status
    · exact own.admitted name found there status
  · intro shows
    rcases shown shows with old | ⟨rfl, status⟩
    · obtain ⟨current, current_eq, status⟩ := own.current old
      -- The current generation is admitted, so it is not the open one that ends.
      have other : state.currentGeneration ≠ generation := by
        rintro rfl
        cases record_eq.symm.trans current_eq
        rw [status] at wasOpen
        cases wasOpen
      exact ⟨current, (AList.lookup_insert_ne other).trans current_eq, status⟩
    · exact ⟨closed, AList.lookup_insert _, status⟩
  · intro name another found other there elsewhere _ _ same
    obtain ⟨old, old_eq, request⟩ := before name found there
    obtain ⟨oldOther, other_eq, otherRequest⟩ := before another other elsewhere
    rw [request, otherRequest] at same
    exact indexed.unique _ _ _ _ old_eq other_eq (congrArg Identity.revision same)

theorem Advances.ownRecords (advances : Advances digest host later state value edits token)
    (indexed : Indexed digest host state) (stored : later.state = some advanced)
    (own : OwnRecords state) : OwnRecords advanced := by
  obtain ⟨next, next_eq, nextIndexed, _⟩ := advances.indexed indexed
  cases next_eq.symm.trans stored
  obtain ⟨found, previous, found_eq, current, lookup⟩ := advances.lookup
  cases found_eq.symm.trans stored
  constructor
  · intro generation record there status
    rw [lookup] at there
    split_ifs at there with new old
    · cases there
      cases status
    · cases there
      obtain ⟨admission, wasAdmitted⟩ := supersede_admission previous
      obtain ⟨request, _⟩ := supersede_request previous
      rw [admission, request, old]
      exact own.admitted _ previous current (wasAdmitted status)
    · exact own.admitted generation record there status
  · exact fun shows => absurd shows (advances.not_current stored)
  · intro generation another record other there elsewhere _ _ same
    exact nextIndexed.unique _ _ _ _ there elsewhere (congrArg Identity.revision same)

/-- If every completion names the generation whose run its trace is, every record of every
interleaving is about its own run. -/
theorem records_own_runs {calls : List Call} {system : System} {state : State}
    (own : OwnRuns calls) (reached : Reaches digest read System.empty calls system)
    (stored : system.host.state = some state) : OwnRecords state := by
  induction reached generalizing state with
  | start => cases stored
  | step before call allowed ih =>
    rename_i middle calls
    have earlier : OwnRuns calls := fun pending member => own pending (mem_append_left _ member)
    rcases next_cases middle call with commits | ⟨_, same⟩
    · generalize middle.next digest read call = next at commits stored
      cases commits with
      | opened opens =>
        obtain ⟨text, documentId, _, _, _, rfl⟩ := opens.opened
        obtain ⟨first, first_eq, indexed, none, _⟩ := opens.indexed
        cases first_eq.symm.trans stored
        have asked : ∀ generation record, state.generations.lookup generation = some record →
            record.status = .requested := by
          cases first_eq
          intro generation record there
          obtain ⟨_, rfl⟩ | ⟨_, there⟩ := lookup_insert_cases there
          · rfl
          · cases there
        constructor
        · intro generation record there status
          rw [asked generation record there] at status
          cases status
        · rintro ⟨mark, member, _⟩
          rw [none] at member
          cases member
        · intro generation another record other there elsewhere status
          rw [asked generation record there] at status
          cases status
      | advanced advances | materialized advances =>
        exact advances.ownRecords (before.indexed _ advances.loaded.stored) stored
          (ih earlier advances.loaded.stored)
      | began begins generation_eq trace_eq => exact ih earlier stored
      | finished finishes =>
        rename_i pending old record current admission host
        have indexed := before.indexed _ finishes.loaded.stored
        have records := ih earlier finishes.loaded.stored
        obtain ⟨_, _, _, rfl⟩ := finishes.kept
        cases stored
        cases admission with
        | admitted generation snapshot projection =>
          obtain ⟨generation_eq, same, shown, shown_eq, backed, _, _, current_eq, _⟩ :=
            finishes.backed indexed
          cases shown_eq
          -- The trace is a run of the current generation, and of the one it was handed in for.
          have ownRun := own pending (mem_append_right _ (mem_singleton_self _))
          have name : pending.generation = old.currentGeneration :=
            Json.text.inj (ownRun.symm.trans backed.run)
          obtain ⟨found, found_eq, request⟩ := indexed.current
          have record_eq := finishes.record_eq
          rw [name, found_eq] at record_eq
          cases record_eq
          exact records.close indexed finishes.record_eq rfl finishes.open_
            (fun _ => ⟨snapshot, projection, by rw [name, generation_eq], request ▸ same⟩)
            fun _ => .inr ⟨name, rfl⟩
        | discarded reason requested run snapshot candidate =>
          exact records.close indexed finishes.record_eq rfl finishes.open_
            (fun status => by cases status) fun shows => .inl shows
      | failed fails =>
        obtain rfl := fails.later_eq
        cases stored
        exact (ih earlier fails.loaded.stored).close (before.indexed _ fails.loaded.stored)
          fails.record_eq rfl fails.open_ (fun status => by cases status) fun shows => .inl shows
    · rw [same] at stored
      exact ih earlier stored

/-- A small completion names its own run. -/
theorem records_own_runs_sample : OwnRuns (sampleCalls 0) ∧
    ∃ state, (sampleDone 0).host.state = some state ∧ OwnRecords state := by
  obtain ⟨state, stored, _⟩ := sampleDone_shows
  have own : OwnRuns (sampleCalls 0) := by
    intro pending member
    have same : pending = samplePending (sampleBegun 0) := by
      simpa [sampleCalls, sampleOpen] using member
    rw [same]
    exact Json.isString_iff.mp (by decide +kernel)
  exact ⟨own, state, stored, records_own_runs own (reaches_sampleDone (by decide +kernel)) stored⟩

def sampleEdit (start stop : Int) (insert : String) : Call :=
  .advance (.array [.object [("from", .int start), ("to", .int stop), ("insert", .text insert)]])
    .sample

/-- A source is edited back, and the first generation completed with the third trace. -/
def sampleReturned : System :=
  (((System.empty.next Digest.sample (sampleReader 2 0) sampleOpen).next Digest.sample
    (sampleReader 2 0) (sampleEdit 3 3 " ")).next Digest.sample (sampleReader 2 0)
      (sampleEdit 3 4 "")).next Digest.sample (sampleReader 2 0)
        (.begin_ (generationName 0 .sample) [])

theorem reaches_sampleReturned : Reaches Digest.sample (sampleReader 2 0) System.empty
    [sampleOpen, sampleEdit 3 3 " ", sampleEdit 3 4 "", .begin_ (generationName 0 .sample) []]
      sampleReturned := by
  have first : Reaches Digest.sample (sampleReader 2 0) System.empty [] System.empty := .start _
  exact (((first.step sampleOpen trivial).step (sampleEdit 3 3 " ") trivial).step
    (sampleEdit 3 4 "") trivial).step (.begin_ (generationName 0 .sample) []) trivial

/-- Admitted, with a run that names a generation. -/
def Admission.isFor (generation : String) : Admission → Bool
  | .admitted run _ _ => run == generation
  | .discarded .. => false

/-- A trace of the current generation that is handed in for an earlier one about the same bytes is
recorded there: the earlier one is admitted with the run of another, and evidence is current while
the current generation is still requested. -/
theorem records_other_run : ∃ calls system state record current snapshot projection,
    Reaches Digest.sample (sampleReader 2 0) System.empty calls system ∧
      system.host.state = some state ∧ state.ShowsCurrent ∧
      state.generations.lookup (generationName 0 .sample) = some record ∧
      record.status = .admitted ∧
      record.admission = some (.admitted (generationName 2 .sample) snapshot projection) ∧
      state.currentGeneration = generationName 2 .sample ∧
      state.generations.lookup state.currentGeneration = some current ∧
      current.status = .requested := by
  have under : samplePending sampleReturned ∈ sampleReturned.pending :=
    samplePending_mem (by decide +kernel)
  have reached := reaches_sampleReturned.step (.finish (samplePending sampleReturned)) under
  have evaluated : ((sampleReturned.next Digest.sample (sampleReader 2 0)
      (.finish (samplePending sampleReturned))).host.state.bind fun state =>
        (state.generations.lookup (generationName 0 .sample)).bind fun record =>
          (state.generations.lookup state.currentGeneration).map fun current =>
            (state.annotations.any fun mark => decide (mark.status = .current)) &&
            decide (record.status = .admitted) && decide (current.status = .requested) &&
            record.admission.any (·.isFor (generationName 2 .sample)) &&
            state.currentGeneration == generationName 2 .sample) = some true := by decide +kernel
  obtain ⟨state, stored, rest⟩ := Option.bind_eq_some_iff.mp evaluated
  obtain ⟨record, record_eq, rest⟩ := Option.bind_eq_some_iff.mp rest
  obtain ⟨current, current_eq, holds⟩ := Option.map_eq_some_iff.mp rest
  simp only [Bool.and_eq_true, decide_eq_true_eq, beq_iff_eq] at holds
  obtain ⟨⟨⟨⟨shows, admitted⟩, asked⟩, admission⟩, name⟩ := holds
  obtain ⟨mark, member, shown⟩ := any_eq_true.mp shows
  have showsCurrent : state.ShowsCurrent := ⟨mark, member, of_decide_eq_true shown⟩
  cases found : record.admission with
  | none =>
    rw [found] at admission
    cases admission
  | some entry =>
    rw [found] at admission
    cases entry with
    | discarded => cases admission
    | admitted generation snapshot projection =>
      have same : generation = generationName 2 .sample := beq_iff_eq.mp admission
      exact ⟨_, _, state, record, current, snapshot, projection, reached, stored, showsCurrent,
        record_eq, admitted, by rw [found, same], name, current_eq, asked⟩

end Fine.Rainfall
