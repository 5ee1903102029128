import Fine.Rainfall.Projected

/-!
# Requests and admission of generations

Only a replay of the requested generation about the requested source, while that is still displayed,
is admitted and projected.
-/

namespace Fine.Rainfall

/-- Identity of a source. -/
def sourceIdentity (digest : Digest) (source : Bytes) (document : String) (revision : Nat) :
    Identity :=
  ⟨document, revision, digest.identity source, source.length⟩

/-- A request to run one generation. -/
structure Request where
  generation : String
  displaySnapshot : Identity
  rainArguments : List String
deriving DecidableEq

/-- Arguments that make the recorder run a generation. -/
def rainArguments (identity : Identity) (generation : String) : List String :=
  ["rain", "--document", identity.document, "--revision", toString identity.revision,
    "--generation", generation]

/-- Issues a request. -/
def makeRequest (digest : Digest) (source : Bytes) (document : String) (revision : Nat)
    (generation : String) : Except String Request := do
  require (document != "") "document ID is empty"
  require (generation != "") "generation ID is empty"
  let identity := sourceIdentity digest source document revision
  return ⟨generation, identity, rainArguments identity generation⟩

def isSourceHash (hash : String) : Bool :=
  "sha256:".toList.isPrefixOf hash.toList && hash.length == 71 &&
    (hash.toList.drop 7).all fun digit => "0123456789abcdef".toList.contains digit

/-- Checks a request that was stored. -/
def loadRequest (request : Request) : Except String Request := do
  require (request.generation != "") "request generation is empty"
  require (request.displaySnapshot.document != "") "request document ID is empty"
  require (isSourceHash request.displaySnapshot.exactSourceHash) "request source hash is malformed"
  require (request.rainArguments == rainArguments request.displaySnapshot request.generation)
    "request rain arguments disagree with its identity"
  return request

/-- What becomes of a completed replay. -/
inductive Admission where
  | admitted (generation : String) (snapshot : Json) (projection : Projection)
  | discarded (reason requestedGeneration : String) (candidateRun : Json)
    (requestedSnapshot : Identity) (candidateSnapshot : Json)

/-- Why a replay is not admitted for a request, if it is not. -/
def discardReason (digest : Digest) (request : Request) (displaySource : Bytes)
    (run snapshot : Json) : Option String :=
  let requested := request.displaySnapshot
  if sourceIdentity digest displaySource requested.document requested.revision ≠ requested then
    some "display-advanced-after-request"
  else if !run.isString request.generation then some "late-or-unrequested-generation"
  else if !(snapshot.get "document").isString requested.document then some "different-document"
  else if !(snapshot.get "revision").isNumber requested.revision then some "different-revision"
  else if !(snapshot.get "exact_source_hash").isString requested.exactSourceHash ||
      !(snapshot.get "byte_length").isNumber requested.byteLength then some "different-source"
  else none

/-- Admits a completed replay for a request, or discards it. -/
def admitReplay (digest : Digest) (request : Request) (displaySource candidateSource : Bytes)
    (events : List Json) : Except String Admission := do
  let request ← loadRequest request
  let _ ← validate digest candidateSource events
  let objects ← catalog events
  let run ← (events.headD .null).at_ "run"
  let snapshot ← objects.snapshot.at_ "identity"
  match discardReason digest request displaySource run snapshot with
  | some reason =>
    return .discarded reason request.generation run request.displaySnapshot snapshot
  | none => do
    let projected ← project digest candidateSource events []
    return .admitted request.generation objects.snapshot projected.1

/-- The replay is one of the request about the displayed source. -/
structure Admitted (digest : Digest) (request : Request) (displaySource candidateSource : Bytes)
    (events : List Json) (snapshot : Json) (projection : Projection) : Prop where
  accepted : ReplayAccepted digest candidateSource events
  display : sourceIdentity digest displaySource request.displaySnapshot.document
    request.displaySnapshot.revision = request.displaySnapshot
  run : (events.headD .null).get "run" = .text request.generation
  snapshot_eq : ∃ event, named "source.snapshot.declare" events = [event] ∧ snapshot = dataOf event
  document : (snapshot.get "identity").get "document" = .text request.displaySnapshot.document
  revision : ((snapshot.get "identity").get "revision").isNumber
    request.displaySnapshot.revision = true
  hash : (snapshot.get "identity").get "exact_source_hash" =
    .text request.displaySnapshot.exactSourceHash
  byteLength : ((snapshot.get "identity").get "byte_length").isNumber
    request.displaySnapshot.byteLength = true
  projected : ∃ displayed, project digest candidateSource events [] = .ok (projection, displayed)

variable {digest : Digest} {request : Request} {displaySource candidateSource : Bytes}
  {events : List Json} {snapshot : Json} {projection : Projection}

/-- A replay is admitted only for the request that it belongs to. -/
theorem admit_admitted {generation : String}
    (run : admitReplay digest request displaySource candidateSource events =
      .ok (.admitted generation snapshot projection)) :
    generation = request.generation ∧
      Admitted digest request displaySource candidateSource events snapshot projection := by
  rw [admitReplay, bind_ok_iff] at run
  obtain ⟨loaded, load, run⟩ := run
  obtain rfl : request = loaded := by
    simp only [loadRequest, require_bind_ok, pure_ok_iff] at load
    exact load.2.2.2.2
  obtain ⟨counts, validated, run⟩ := bind_ok_iff.mp run
  have accepted := validate_ok_iff.mp ⟨counts, validated⟩
  obtain ⟨objects, found, run⟩ := bind_ok_iff.mp run
  rw [Json.at_bind_ok, Json.at_bind_ok] at run
  obtain ⟨_, _, run⟩ := run
  cases reason : discardReason digest request displaySource ((events.headD .null).get "run")
      (objects.snapshot.get "identity") with
  | some message =>
    rw [reason] at run
    cases run
  | none =>
    rw [reason] at run
    obtain ⟨projected, projection_eq, same⟩ := bind_ok_iff.mp run
    cases same
    simp only [discardReason] at reason
    split_ifs at reason with display own document revision source
    simp only [Bool.not_eq_true', Bool.not_eq_false, Json.isString_iff, Bool.or_eq_true, not_or]
      at own document revision source
    obtain ⟨snapshotEvent, first, same⟩ : ∃ event,
        firstNamed "source.snapshot.declare" events = .ok event ∧
          objects.snapshot = dataOf event := by
      rw [catalog] at found
      obtain ⟨_, _, found⟩ := bind_ok_iff.mp found
      obtain ⟨event, first, same⟩ := bind_ok_iff.mp found
      exact ⟨event, first, by rw [← pure_ok_iff.mp same]; rfl⟩
    have one : named "source.snapshot.declare" events = [snapshotEvent] := by
      have count := accepted.finished.snapshot
      have kind := accepted.named_eq (show Operation.snapshot.name? = _ from rfl)
      rw [firstNamed] at first
      simp only [Replay.of, dataOfKind, List.length_map] at count
      rw [← kind] at count
      cases all : named "source.snapshot.declare" events with
      | nil => rw [all] at count; cases count
      | cons event rest =>
        rw [all] at count first
        have empty : rest = [] := List.length_eq_zero_iff.mp (by simpa using count)
        rw [empty, pure_ok_iff.mp first]
    exact ⟨rfl, accepted, not_not.mp display, own, ⟨snapshotEvent, one, same⟩, document, revision,
      source.1, source.2, projected.2, projection_eq⟩

theorem Admitted.checked
    (admitted : Admitted digest request displaySource candidateSource events snapshot projection) :
    ∃ replay, Replay.SnapshotAccepted digest candidateSource replay snapshot := by
  obtain ⟨event, one, same⟩ := admitted.snapshot_eq
  have member : dataOf event ∈ dataOfKind .snapshot events := by
    have kind := admitted.accepted.named_eq (show Operation.snapshot.name? = _ from rfl)
    rw [one] at kind
    rw [dataOfKind, ← kind]
    exact List.mem_singleton_self _
  obtain ⟨index, declaration, _, data_eq, kind, holds⟩ := admitted.accepted.of_data member
  have checked := holds.data
  rw [Replay.DataAccepted, kind, data_eq, ← same] at checked
  exact ⟨_, checked⟩

end Fine.Rainfall
