import Fine.Rainfall.Crash
import Fine.Rainfall.Generations

/-!
# Runs with crashes

Clients may be stopped inside their sections, and the others go on with what is on the disk: some
new files at most, or what the section leaves.
-/

namespace Fine.Rainfall.Durable

open Effects (Effectful Within Atomic)

variable {digest : Digest} {texts : Texts} {read : Bytes → Except String (List Json)}
  {α β : Type} {start disk : Disk}

/-- All is kept up to the last effect. -/
abbrev Whole (action : Effectful Disk α) : Prop := Atomic Keeps id action

theorem whole_consult (reading : Host → Except String α) : Whole (consult reading) :=
  fun start => ⟨nofun, fun _ _ => Keeps.refl start⟩

theorem Whole.consult {reading : Host → Except String α} {next : α → Effectful Disk β}
    (tail : ∀ value, Whole (next value)) : Whole (consult reading >>= next) :=
  (within_consult reading).atomic_bind Keeps.trans fun _ value _ => tail value

theorem Whole.done {action : Effectful Disk α} (whole : Whole action) :
    Whole (action >>= fun _ => pure ()) :=
  Atomic.bind_pure whole fun _ => ⟨(), rfl⟩

theorem whole_saveState (state : State) : Whole (saveState texts state) := by
  refine Atomic.effect fun start disk member => ?_
  obtain ⟨count, -, rfl⟩ := List.mem_map.mp member
  exact ⟨rfl, fun _ _ there => there⟩

theorem whole_issueAndSave (state : State) (source : Bytes) (token : Token) :
    Whole (issueAndSave digest texts state source token) := by
  refine (within_issueGeneration state source token).atomic_bind Keeps.trans ?_
  intro start issued ran
  obtain ⟨-, -, same, -⟩ := issueGeneration_ok ((issueGeneration_realizes _ _ _).ok ran)
  obtain ⟨action, told⟩ := @launchDescription_issue digest source token state
  refine (whole_saveState issued).bind_pure fun _ => ⟨action, ?_⟩
  rw [same, told]
  rfl

theorem whole_advanceLocked (state : State) (edits : List Edit) (token : Token) :
    Whole (advanceLocked digest texts state edits token) := by
  refine .consult fun _ => ?_
  dsimp only
  split
  · exact whole_consult _
  · exact whole_consult _
  · exact whole_issueAndSave _ _ _

/-- One section of a client on the disk. -/
def perform (digest : Digest) (texts : Texts) (read : Bytes → Except String (List Json)) :
    Call → Effectful Disk Unit
  | .initialize_ source displayName document documentToken token => do
    let _ ← initializeHost digest texts source displayName document documentToken token
    pure ()
  | .advance edits token => do
    let _ ← advance digest texts edits token
    pure ()
  | .begin_ generation trace => do
    let _ ← consult (beginCompletion digest read generation trace)
    pure ()
  | .finish pending => do
    let _ ← finishCompletion digest texts pending
    pure ()
  | .markFailed generation error => markFailed digest texts generation error
  | .materialize token => do
    let _ ← materialize digest texts read token
    pure ()

/-- Every section keeps everything up to its last effect. -/
theorem whole_perform (call : Call) : Whole (perform digest texts read call) := by
  cases call with
  | initialize_ source displayName document documentToken token =>
    refine .done ?_
    unfold initializeHost
    split
    · exact whole_consult _
    · exact .consult fun _ => .consult fun _ => whole_issueAndSave _ _ _
  | advance edits token =>
    exact .done (.consult fun _ => .consult fun _ => whole_advanceLocked _ _ _)
  | begin_ generation trace => exact .done (whole_consult _)
  | finish pending =>
    refine .done (.consult fun _ => ?_)
    split
    · exact whole_consult _
    · exact whole_consult _
    · refine .consult fun _ => .consult fun _ => ?_
      exact (within_retainTrace _ _).atomic_bind Keeps.trans fun _ _ _ =>
        (whole_saveState _).bind_pure fun _ => ⟨_, rfl⟩
  | markFailed generation error =>
    refine .consult fun _ => ?_
    split
    · exact whole_consult _
    · exact .consult fun _ => whole_saveState _
  | materialize token =>
    refine .done (.consult fun _ => ?_)
    split
    · exact whole_consult _
    refine .consult fun _ => ?_
    split
    · exact whole_consult _
    refine .consult fun _ => .consult fun _ => .consult fun _ => ?_
    split
    · exact .consult fun _ => .consult fun _ => .consult fun _ => whole_advanceLocked _ _ _
    · exact whole_consult _

theorem done_ok {action : Effectful Disk α}
    (ran : ((action >>= fun _ => pure ()) start).result = .ok ()) :
    ∃ value, (action start).result = .ok value ∧
      ((action >>= fun _ => pure ()) start).final = (action start).final := by
  cases run : (action start).result with
  | error message =>
    rw [Effectful.bind_of_error run] at ran
    cases ran
  | ok value => exact ⟨value, rfl, by rw [Effectful.bind_of_ok run]; rfl⟩

/-- A section that succeeds on the disk has the effect of one of the host. -/
theorem perform_ok {call : Call} (ran : (perform digest texts read call start).result = .ok ()) :
    ∃ later, Commits digest read ⟨start.host, []⟩ call later ∧
      (perform digest texts read call start).final.host = later.host := by
  cases call with
  | initialize_ source displayName document documentToken token =>
    obtain ⟨_, made, same⟩ := done_ok ran
    exact ⟨_, .opened (initializeHost_ok ((initializeHost_realizes _ _ _ _ _).ok made)),
      congrArg Disk.host same⟩
  | advance value token =>
    obtain ⟨_, made, same⟩ := done_ok ran
    obtain ⟨state, edits, advances⟩ := advance_ok ((advance_realizes _ _).ok made)
    exact ⟨_, .advanced advances, congrArg Disk.host same⟩
  | begin_ generation trace =>
    obtain ⟨pending, made, same⟩ := done_ok ran
    obtain ⟨generation_eq, trace_eq, state, record, begins⟩ := beginCompletion_ok made
    exact ⟨_, .began begins generation_eq trace_eq, congrArg Disk.host same⟩
  | finish pending =>
    obtain ⟨_, made, same⟩ := done_ok ran
    obtain ⟨state, record, current, finishes⟩ :=
      finishCompletion_ok ((finishCompletion_realizes _).ok made)
    exact ⟨_, .finished finishes, congrArg Disk.host same⟩
  | markFailed generation error =>
    obtain ⟨later, made, same⟩ := bind_ok_iff.mp ((markFailed_realizes _ _).ok ran)
    obtain ⟨state, record, fails⟩ := markFailed_ok made
    cases same
    exact ⟨_, .failed fails, rfl⟩
  | materialize token =>
    obtain ⟨_, made, same⟩ := done_ok ran
    obtain ⟨state, value, edits, advances⟩ := materialize_ok ((materialize_realizes _).ok made)
    exact ⟨_, .materialized advances, congrArg Disk.host same⟩

/-- The disks that clients leave which are stopped or come to an end. -/
inductive Survives (digest : Digest) (texts : Texts) (read : Bytes → Except String (List Json)) :
    Disk → Prop where
  | empty (temporaries : List Bytes) : Survives digest texts read ⟨Host.empty, temporaries⟩
  | stopped {start disk : Disk} (call : Call) : Survives digest texts read start →
      (perform digest texts read call).Stops start disk → Survives digest texts read disk
  | ended {start : Disk} (call : Call) : Survives digest texts read start →
      Survives digest texts read (perform digest texts read call start).final

/-- The state on the disk indexes its generations. -/
def IndexedOn (digest : Digest) (disk : Disk) : Prop :=
  ∀ state, saved disk = some state → Indexed digest disk.host state

theorem Keeps.indexed (keeps : Keeps start disk) (indexed : IndexedOn digest start) :
    IndexedOn digest disk := by
  intro state stored
  have before := indexed state (keeps.state.symm.trans stored)
  refine ⟨before.identity, before.document, fun generation record there => ?_, before.unique,
    before.covered, before.current, before.requested⟩
  obtain ⟨revision, source, token, issued⟩ := before.issued generation record there
  exact ⟨revision, source, token, issued.revision_le, issued.name, issued.request,
    issued.sourceFile, issued.requestFile, keeps.files _ _ issued.kept⟩

theorem IndexedOn.ended (indexed : IndexedOn digest start) (call : Call) :
    IndexedOn digest (perform digest texts read call start).final := by
  cases ran : (perform digest texts read call start).result with
  | error message => exact ((whole_perform call start).2 message ran).indexed indexed
  | ok value =>
    obtain ⟨later, commits, same⟩ := perform_ok ran
    intro state stored
    rw [same]
    exact commits.indexed indexed state (same ▸ stored)

/-- However a run is cut up, the state on the disk has one generation for each revision, the bytes
each was requested for are retained whole, the current generation is about the displayed source, and
no other is requested. -/
theorem survives_indexed (survives : Survives digest texts read disk) {state : State}
    (stored : saved disk = some state) : Indexed digest disk.host state := by
  suffices indexed : IndexedOn digest disk from indexed state stored
  clear stored
  induction survives with
  | empty temporaries => exact fun state stored => by cases stored
  | @stopped start disk call _ stops ih =>
    rcases stops with rfl | inside
    · exact ih
    · rcases (whole_perform call _).1 _ inside with keeps | ⟨-, last⟩
      · exact keeps.indexed ih
      · have same : disk = (perform digest texts read call start).final := last
        rw [same]
        exact ih.ended call
  | ended call _ ih => exact ih.ended call

def sampleTexts : Texts := ⟨fun _ => [], fun _ => []⟩

def Token.other : Token := ⟨"111111111111111111111111", rfl, rfl⟩

/-- A transaction that puts a blank at the end. -/
def sampleSpaced (token : Token) : Call :=
  .advance (.array [.object [("from", .int 3), ("to", .int 3), ("insert", .text " ")]]) token

/-- The disk of a host that was opened. -/
def sampleOpened : Disk :=
  (perform Digest.sample sampleTexts (sampleReader 0 0) sampleOpen ⟨Host.empty, []⟩).final

/-- A client is stopped when it has written two bytes of a source. -/
def sampleTorn : Disk :=
  (perform Digest.sample sampleTexts (sampleReader 0 0) (sampleSpaced .sample)
    sampleOpened).trail.getD 2 sampleOpened

/-- The disk after another client's same transaction. -/
def sampleRecovered : Disk :=
  (perform Digest.sample sampleTexts (sampleReader 0 0) (sampleSpaced Token.other) sampleTorn).final

theorem survives_sampleTorn : Survives Digest.sample sampleTexts (sampleReader 0 0) sampleTorn := by
  refine .stopped (sampleSpaced .sample) (.ended sampleOpen (.empty [])) (.inr ?_)
  have inside : 2 < (perform Digest.sample sampleTexts (sampleReader 0 0)
      (sampleSpaced .sample) sampleOpened).trail.length := by decide +kernel
  rw [sampleTorn, List.getD_eq_getElem _ _ inside]
  exact List.getElem_mem inside

/-- A client is stopped with a part of a source written, and another commits the transaction: both
generations are indexed, and the part that was written is still there. -/
theorem survives_indexed_sample : ∃ state,
    Survives Digest.sample sampleTexts (sampleReader 0 0) sampleRecovered ∧
    saved sampleRecovered = some state ∧ state.displaySnapshot.revision = 1 ∧
    sampleRecovered.host.files.lookup (sourceFile 1 .sample) = some (.bytes [120, 61]) ∧
    Indexed Digest.sample sampleRecovered.host state := by
  have survives : Survives Digest.sample sampleTexts (sampleReader 0 0) sampleRecovered :=
    .ended _ survives_sampleTorn
  have moved : ((saved sampleRecovered).map fun state => state.displaySnapshot.revision) =
      some 1 := by decide +kernel
  obtain ⟨state, stored, revision⟩ := Option.map_eq_some_iff.mp moved
  exact ⟨state, survives, stored, revision, by decide +kernel, survives_indexed survives stored⟩

end Fine.Rainfall.Durable
