import Fine.Rainfall.Durable
import Fine.Rainfall.Evidence

/-!
# Crashes and failures of the host

Every section changes the state file by one rename that nothing can fail behind. A section that was
cut short before can be repeated, unless a part of a trace is left behind.
-/

namespace Fine.Rainfall.Durable

open Effects (Effectful Within Atomic)

variable {digest : Digest} {texts : Texts} {read : Bytes → Except String (List Json)}
  {α β : Type} {start disk : Disk}

/-- The state file and every retained file are kept. -/
structure Keeps (start disk : Disk) : Prop where
  state : disk.host.state = start.host.state
  files : ∀ path content, start.host.files.lookup path = some content →
    disk.host.files.lookup path = some content

theorem Keeps.refl (disk : Disk) : Keeps disk disk := ⟨rfl, fun _ _ there => there⟩

theorem Keeps.trans {first second third : Disk} (left : Keeps first second)
    (right : Keeps second third) : Keeps first third :=
  ⟨right.state.trans left.state, fun path content there =>
    right.files path content (left.files path content there)⟩

def saved (disk : Disk) : Option State := disk.host.state

/-- All is kept up to one change of the state file. -/
abbrev Safe (action : Effectful Disk α) : Prop := Atomic Keeps saved action

theorem within_consult (reading : Host → Except String α) : Within Keeps (consult reading) :=
  Within.look Keeps.refl _

theorem safe_consult (reading : Host → Except String α) : Safe (consult reading) :=
  fun start => ⟨nofun, fun _ _ => Keeps.refl start⟩

theorem Safe.consult {reading : Host → Except String α} {next : α → Effectful Disk β}
    (tail : ∀ value, Safe (next value)) : Safe (consult reading >>= next) :=
  (within_consult reading).atomic_bind Keeps.trans fun _ value _ => tail value

theorem within_writeImmutable (path : Path) (content : Artifact) :
    Within Keeps (writeImmutable texts path content) := by
  intro start
  cases there : (start.host.files.lookup path).isNone with
  | false =>
    have run : writeImmutable texts path content start = _ := Effectful.bind_of_error
      (show require _ _ = Except.error "FileExistsError" by rw [there]; rfl)
    rw [run]
    exact ⟨nofun, Keeps.refl start⟩
  | true =>
    have run : writeImmutable texts path content start = _ := Effectful.look_bind_of_ok
      (show require _ _ = Except.ok () by rw [there]; rfl)
    have put : ∀ content, Keeps start (start.put path content) := by
      refine fun content => ⟨rfl, fun other kept found => ?_⟩
      have different : other ≠ path := by
        rintro rfl
        rw [found] at there
        cases there
      exact (AList.lookup_insert_ne different).trans found
    rw [run]
    refine ⟨fun disk member => ?_, put content⟩
    rcases List.mem_append.mp member with partly | whole
    · obtain ⟨count, -, rfl⟩ := List.mem_map.mp partly
      exact put _
    · rw [List.mem_singleton.mp whole]
      exact put _

theorem safe_saveState (state : State) : Safe (saveState texts state) := by
  refine Atomic.effect fun start disk member => ?_
  obtain ⟨count, -, rfl⟩ := List.mem_map.mp member
  exact ⟨rfl, fun _ _ there => there⟩

theorem within_issueGeneration (state : State) (source : Bytes) (token : Token) :
    Within Keeps (issueGeneration digest texts state source token) :=
  (within_consult _).bind Keeps.trans fun _ =>
    (within_writeImmutable _ _).bind Keeps.trans fun _ =>
      (within_writeImmutable _ _).bind Keeps.trans fun _ =>
        fun start => ⟨nofun, Keeps.refl start⟩

/-- The client is told behind the change of the state file, which cannot fail. -/
theorem safe_issueAndSave (state : State) (source : Bytes) (token : Token) :
    Safe (issueAndSave digest texts state source token) := by
  refine (within_issueGeneration state source token).atomic_bind Keeps.trans ?_
  intro start issued ran
  have realized := @issueGeneration_realizes start digest texts state source token
  cases made : Rainfall.issueGeneration digest start.host state source token with
  | error message =>
    rw [made] at realized
    cases ran.symm.trans realized
  | ok pair =>
    rw [made] at realized
    cases ran.symm.trans realized.1
    obtain ⟨-, -, same, -⟩ := issueGeneration_ok made
    obtain ⟨action, told⟩ := @launchDescription_issue digest source token state
    refine (safe_saveState pair.2).bind_pure fun _ => ⟨action, ?_⟩
    rw [same, told]
    rfl

theorem safe_advanceLocked (state : State) (edits : List Edit) (token : Token) :
    Safe (advanceLocked digest texts state edits token) := by
  refine .consult fun _ => ?_
  dsimp only
  split
  · exact safe_consult _
  · exact safe_consult _
  · exact safe_issueAndSave _ _ _

theorem safe_initializeHost (source : Bytes) (displayName : String) (document : Option String)
    (documentToken : DocumentToken) (token : Token) :
    Safe (initializeHost digest texts source displayName document documentToken token) := by
  unfold initializeHost
  split
  · exact safe_consult _
  · exact .consult fun _ => .consult fun _ => safe_issueAndSave _ _ _

theorem safe_advance (value : Json) (token : Token) : Safe (advance digest texts value token) :=
  .consult fun _ => .consult fun _ => safe_advanceLocked _ _ _

theorem safe_materialize (token : Token) : Safe (materialize digest texts read token) := by
  refine .consult fun _ => ?_
  split
  · exact safe_consult _
  refine .consult fun _ => ?_
  split
  · exact safe_consult _
  refine .consult fun _ => .consult fun _ => .consult fun _ => ?_
  split
  · exact .consult fun _ => .consult fun _ => .consult fun _ => safe_advanceLocked _ _ _
  · exact safe_consult _

theorem within_retainTrace (path : Path) (trace : Bytes) :
    Within Keeps (retainTrace texts path trace) := by
  refine (within_consult _).bind Keeps.trans fun found => ?_
  split
  · exact within_consult _
  · exact within_consult _
  · exact within_writeImmutable _ _

theorem safe_finishCompletion (pending : Pending) :
    Safe (finishCompletion digest texts pending) := by
  refine .consult fun _ => ?_
  split
  · exact safe_consult _
  · exact safe_consult _
  · refine .consult fun _ => .consult fun _ => ?_
    exact (within_retainTrace _ _).atomic_bind Keeps.trans fun _ _ _ =>
      (safe_saveState _).bind_pure fun _ => ⟨_, rfl⟩

theorem safe_complete (generation : String) (trace : Bytes) :
    Safe (complete digest texts read generation trace) :=
  .consult fun pending => safe_finishCompletion pending

theorem safe_markFailed (generation error : String) :
    Safe (markFailed digest texts generation error) := by
  refine .consult fun _ => ?_
  split
  · exact safe_consult _
  · exact .consult fun _ => safe_saveState _

/-! ## Failures -/

def OnlyRecord (generation : String) (start disk : Disk) : Prop :=
  ∃ state later, saved start = some state ∧ saved disk = some later ∧
    later.document = state.document ∧ later.displaySource = state.displaySource ∧
    later.displaySnapshot = state.displaySnapshot ∧
    later.currentGeneration = state.currentGeneration ∧ later.annotations = state.annotations ∧
    ∀ other, other ≠ generation →
      later.generations.lookup other = state.generations.lookup other

variable {action : Effectful Disk α} {expected : Except String (Host × α)} {host : Host}
  {generation : String} {trace : Bytes} {admission : Admission}

theorem Realizes.ok (realizes : Realizes action disk expected) {value : α}
    (ran : (action disk).result = .ok value) :
    expected = .ok ((action disk).final.host, value) := by
  cases expected with
  | error message => cases ran.symm.trans realizes
  | ok pair =>
    cases ran.symm.trans realizes.1
    rw [realizes.2]

theorem Realizes.run (realizes : Realizes action disk expected) {value : α}
    (ran : expected = .ok (host, value)) :
    (action disk).result = .ok value ∧ (action disk).final = { disk with host := host } := by
  subst ran
  exact realizes

theorem finishCompletion_discarded {pending : Pending} {reason asked : String} {run snapshot : Json}
    {requested : Identity}
    (ended : (finishCompletion digest texts pending start).result =
      .ok (.discarded reason asked run requested snapshot)) :
    OnlyRecord pending.generation start (finishCompletion digest texts pending start).final := by
  obtain ⟨state, record, current, finishes⟩ :=
    finishCompletion_ok ((finishCompletion_realizes pending).ok ended)
  obtain ⟨middle, -, -, same⟩ := finishes.kept
  refine ⟨state, _, finishes.loaded.stored, congrArg Host.state same, rfl, rfl, rfl, rfl, rfl, ?_⟩
  exact fun other different => AList.lookup_insert_ne different

/-- Without other clients the second section runs where the first was run. -/
theorem complete_eq
    (ran : (complete digest texts read generation trace start).result = .ok admission) :
    ∃ pending state record, pending.generation = generation ∧ pending.trace = trace ∧
      Begins digest read start.host state pending record ∧
      complete digest texts read generation trace start =
        finishCompletion digest texts pending start := by
  cases begun : beginCompletion digest read generation trace start.host with
  | error message =>
    have failed : (complete digest texts read generation trace start).result = .error message :=
      congrArg Effects.Outcome.result (Effectful.bind_of_error begun)
    cases ran.symm.trans failed
  | ok pending =>
    obtain ⟨named, traced, state, record, begins⟩ := beginCompletion_ok begun
    exact ⟨pending, state, record, named, traced, begins, Effectful.look_bind_of_ok begun⟩

/-- A discarded completion and a recorded failure change only their own record, and a section that
fails leaves the state file. -/
theorem sections_frame (digest : Digest) (texts : Texts) (read : Bytes → Except String (List Json))
    (start : Disk) :
    (∀ generation trace reason asked run requested snapshot,
      (complete digest texts read generation trace start).result =
        .ok (.discarded reason asked run requested snapshot) →
      OnlyRecord generation start (complete digest texts read generation trace start).final) ∧
    (∀ pending reason asked run requested snapshot,
      (finishCompletion digest texts pending start).result =
        .ok (.discarded reason asked run requested snapshot) →
      OnlyRecord pending.generation start (finishCompletion digest texts pending start).final) ∧
    (∀ generation error, (markFailed digest texts generation error start).result = .ok () →
      OnlyRecord generation start (markFailed digest texts generation error start).final) ∧
    (∀ generation trace message,
      (complete digest texts read generation trace start).result = .error message →
      saved (complete digest texts read generation trace start).final = saved start) ∧
    (∀ pending message, (finishCompletion digest texts pending start).result = .error message →
      saved (finishCompletion digest texts pending start).final = saved start) ∧
    (∀ value token message, (advance digest texts value token start).result = .error message →
      saved (advance digest texts value token start).final = saved start) ∧
    (∀ token message, (materialize digest texts read token start).result = .error message →
      saved (materialize digest texts read token start).final = saved start) ∧
    (∀ generation error message,
      (markFailed digest texts generation error start).result = .error message →
      saved (markFailed digest texts generation error start).final = saved start) := by
  refine ⟨?_, fun _ _ _ _ _ _ => finishCompletion_discarded, ?_,
    fun _ _ message failed => ((safe_complete _ _ start).2 message failed).state,
    fun _ message failed => ((safe_finishCompletion _ start).2 message failed).state,
    fun _ _ message failed => ((safe_advance _ _ start).2 message failed).state,
    fun _ message failed => ((safe_materialize _ start).2 message failed).state,
    fun _ _ message failed => ((safe_markFailed _ _ start).2 message failed).state⟩
  · intro generation trace reason asked run requested snapshot ended
    obtain ⟨pending, -, -, rfl, -, -, same⟩ := complete_eq ended
    rw [same] at ended ⊢
    exact finishCompletion_discarded ended
  · intro generation error ended
    have realized := (markFailed_realizes generation error).ok ended
    obtain ⟨later, made, same⟩ := bind_ok_iff.mp realized
    obtain ⟨state, record, fails⟩ := markFailed_ok made
    cases same
    refine ⟨state, _, fails.loaded.stored, congrArg Host.state fails.later_eq, rfl, rfl, rfl, rfl,
      rfl, ?_⟩
    exact fun other different => AList.lookup_insert_ne different

/-! ## Crashes -/

/-- The random tokens that a section draws. -/
structure Tokens where
  document : DocumentToken
  generation : Token

def Tokens.New (tokens : Tokens) (disk : Disk) : Prop :=
  ∀ revision, disk.host.files.lookup (sourceFile revision tokens.generation) = none ∧
    disk.host.files.lookup (requestFile revision tokens.generation) = none

/-- The section succeeds, with the reply and state file it has on the disk it was begun on. -/
def Repeats (run : Tokens → Effectful Disk α) (start disk : Disk) (tokens : Tokens) : Prop :=
  ∃ reply, (run tokens disk).result = .ok reply ∧ (run tokens start).result = .ok reply ∧
    saved (run tokens disk).final = saved (run tokens start).final

/-- Cut short, a section that would have succeeded leaves the old state file or the new one, and can
be repeated exactly when it is the old one and what is left behind is whole. -/
def Recovers (run : Tokens → Effectful Disk α) (whole : Disk → Prop) : Prop :=
  ∀ start disk tokens reply, (run tokens start).result = .ok reply →
    (run tokens).Stops start disk →
    (saved disk = saved start ∨ saved disk = saved (run tokens start).final) ∧
    ∀ again : Tokens, again.New start → again.New disk →
      (Repeats run start disk again ↔ saved disk = saved start ∧ whole disk)

/-- It is to be repeated where the disk is kept, and refused where the state file was changed. -/
theorem recovers_of {run : Tokens → Effectful Disk α} {whole : Disk → Prop}
    (safe : ∀ tokens, Safe (run tokens))
    (repeated : ∀ start disk tokens again reply, (run tokens start).result = .ok reply →
      Tokens.New again start → Tokens.New again disk → Keeps start disk →
      (Repeats run start disk again ↔ whole disk))
    (refused : ∀ start disk tokens again reply, (run tokens start).result = .ok reply →
      Tokens.New again start → saved disk = saved (run tokens start).final →
      saved disk ≠ saved start ∧ ¬ Repeats run start disk again) : Recovers run whole := by
  intro start disk tokens reply ran stops
  have cases_ : Keeps start disk ∨ saved disk = saved (run tokens start).final := by
    rcases stops with rfl | member
    · exact .inl (Keeps.refl disk)
    · exact ((safe tokens start).1 disk member).imp id And.right
  refine ⟨cases_.imp Keeps.state id, fun again newStart newDisk => ?_⟩
  rcases cases_ with keeps | changed
  · rw [repeated start disk tokens again reply ran newStart newDisk keeps]
    exact ⟨fun whole => ⟨keeps.state, whole⟩, And.right⟩
  · obtain ⟨different, not⟩ := refused start disk tokens again reply ran newStart changed
    exact ⟨fun repeats => absurd repeats not, fun same => absurd same.1 different⟩

theorem Repeats.of_realizes {run : Tokens → Effectful Disk α} {tokens : Tokens}
    {first second : Except String (Host × α)} {other : Host} {reply : α}
    (onDisk : Realizes (run tokens) disk first) (onStart : Realizes (run tokens) start second)
    (ran : first = .ok (host, reply)) (ran' : second = .ok (other, reply))
    (same : host.state = other.state) : Repeats run start disk tokens := by
  refine ⟨reply, (onDisk.run ran).1, (onStart.run ran').1, ?_⟩
  rw [saved, saved, (onDisk.run ran).2, (onStart.run ran').2]
  exact same

theorem recovers_initializeHost (source : Bytes) (displayName : String) (document : Option String) :
    Recovers (fun tokens => initializeHost digest texts source displayName document
      tokens.document tokens.generation) fun _ => True := by
  refine recovers_of (fun _ => safe_initializeHost _ _ _ _ _) ?_ ?_
  all_goals
    intro start disk tokens again reply ran newStart
    have opens := initializeHost_ok ((initializeHost_realizes _ _ _ _ _).ok ran)
    obtain ⟨text, _, decoded, -, -, later⟩ := opens.opened
    obtain ⟨documentId, state, action, runs⟩ := @initializeHost_of digest source text decoded
      displayName document again.document again.generation
    have restart := runs start.host opens.absent (newStart 0).1 (newStart 0).2
  · intro newDisk keeps
    have rerun := runs disk.host (keeps.state.trans opens.absent) (newDisk 0).1 (newDisk 0).2
    exact iff_true_intro (.of_realizes (initializeHost_realizes _ _ _ _ _)
      (initializeHost_realizes _ _ _ _ _) rerun restart rfl)
  · intro changed
    have present : saved disk ≠ none := by
      rw [changed, saved, later]
      nofun
    refine ⟨fun same => present (same.trans opens.absent), ?_⟩
    rintro ⟨_, rerun, -⟩
    exact present (initializeHost_ok ((initializeHost_realizes _ _ _ _ _).ok rerun)).absent

/-- A transaction that was cut short can be repeated. -/
theorem recovers_advance (value : Json) :
    Recovers (fun tokens => advance digest texts value tokens.generation) fun _ => True := by
  refine recovers_of (fun _ => safe_advance _ _) ?_ ?_
  all_goals
    intro start disk tokens again reply ran newStart
    obtain ⟨state, edits, advances⟩ := advance_ok ((advance_realizes _ _).ok ran)
    obtain ⟨text, previous, decoded, current, document, -, later⟩ := advances.advanced
    obtain ⟨action, runs⟩ := @advance_of digest state again.generation value edits text previous
      advances.loaded.checked advances.edits_eq advances.nonempty decoded current document
    have restart := runs start.host advances.loaded.stored (newStart _).1 (newStart _).2
  · intro newDisk keeps
    have rerun := runs disk.host (keeps.state.trans advances.loaded.stored) (newDisk _).1
      (newDisk _).2
    exact iff_true_intro (.of_realizes (advance_realizes _ _) (advance_realizes _ _) rerun restart
      rfl)
  · intro changed
    have moved : ∃ advanced, saved disk = some advanced ∧
        advanced.displaySnapshot.revision = state.displaySnapshot.revision + 1 := by
      refine ⟨_, changed.trans (congrArg Host.state later), rfl⟩
    obtain ⟨advanced, stored, revision⟩ := moved
    refine ⟨?_, ?_⟩
    · intro same
      cases (same.symm.trans stored).symm.trans advances.loaded.stored
      omega
    · rintro ⟨_, rerun, -, twice⟩
      have realized := (@advance_realizes start digest texts value again.generation).run restart
      -- Committed once more the transaction gives the revision behind the one it should give.
      obtain ⟨found, _, advances'⟩ := advance_ok ((advance_realizes _ _).ok rerun)
      cases advances'.loaded.stored.symm.trans stored
      obtain ⟨_, _, _, _, _, -, later'⟩ := advances'.advanced
      rw [saved, saved, later', realized.2] at twice
      have last := congrArg (fun state => state.displaySnapshot.revision) (Option.some.inj twice)
      have sums : advanced.displaySnapshot.revision + 1 = state.displaySnapshot.revision + 1 := last
      omega

/-- No trace of the generation is there, or the whole of it. -/
def TraceWhole (generation : String) (trace : Bytes) (disk : Disk) : Prop :=
  disk.host.files.lookup (traceFile generation) = none ∨
    disk.host.files.lookup (traceFile generation) = some (.bytes trace)

theorem retainTrace_ok_iff {path : Path} :
    (∃ kept, Rainfall.retainTrace host path trace = .ok kept ∧ kept.state = host.state) ↔
      host.files.lookup path = none ∨ host.files.lookup path = some (.bytes trace) := by
  rw [Rainfall.retainTrace]
  cases there : host.files.lookup path with
  | none => simp [writeImmutable_ok, there]
  | some artifact =>
    cases artifact with
    | request _ => simp [throw, throwThe, MonadExceptOf.throw]
    | bytes content =>
      simp only [require_bind_ok, pure_ok_iff, beq_iff_eq, reduceCtorEq, false_or,
        Option.some.injEq, Artifact.bytes.injEq]
      constructor
      · rintro ⟨_, ⟨same, -⟩, -⟩
        exact same
      · exact fun same => ⟨host, ⟨same, rfl⟩, rfl⟩

/-- A completion can be repeated unless a part of its trace is left behind. -/
theorem recovers_complete (generation : String) (trace : Bytes) :
    Recovers (fun _ => complete digest texts read generation trace)
      (TraceWhole generation trace) := by
  refine recovers_of (fun _ => safe_complete _ _) ?_ ?_
  all_goals
    intro start disk tokens again reply ran newStart
    obtain ⟨pending, state, record, rfl, rfl, begins, same⟩ := complete_eq ran
    have done : (finishCompletion digest texts pending start).result = .ok reply := same ▸ ran
    obtain ⟨found, other, current, finishes⟩ :=
      finishCompletion_ok ((finishCompletion_realizes pending).ok done)
    cases finishes.loaded.stored.symm.trans begins.loaded.stored
    cases finishes.record_eq.symm.trans begins.record_eq
  · intro newDisk keeps
    have loaded : Loaded digest disk.host state :=
      ⟨keeps.state.trans begins.loaded.stored, begins.loaded.checked⟩
    have same' : complete digest texts read pending.generation pending.trace disk =
        finishCompletion digest texts pending disk :=
      Effectful.look_bind_of_ok (beginCompletion_of ⟨loaded, begins.record_eq, begins.open_,
        keeps.files _ _ begins.source, begins.events, begins.accepted⟩)
    have onDisk := finishCompletion_eq loaded begins.record_eq finishes.current_eq begins.open_
      finishes.admitted
    have onStart := finishCompletion_eq begins.loaded begins.record_eq finishes.current_eq
      begins.open_ finishes.admitted
    rw [TraceWhole, ← retainTrace_ok_iff]
    constructor
    · rintro ⟨_, again_, -⟩
      dsimp only at again_
      rw [same'] at again_
      have rerun := (finishCompletion_realizes pending).ok again_
      rw [onDisk] at rerun
      obtain ⟨kept, retained, -⟩ := bind_ok_iff.mp rerun
      exact ⟨kept, retained, (retainTrace_ok retained).1⟩
    · rintro ⟨kept, retained, -⟩
      have restart := (finishCompletion_realizes pending).ok done
      rw [onStart] at restart
      obtain ⟨first, -, closed⟩ := bind_ok_iff.mp restart
      have onDisk := (@finishCompletion_realizes disk digest texts pending).run
        (onDisk.trans (bind_ok_iff.mpr ⟨kept, retained, rfl⟩))
      refine ⟨reply, ?_, ran, ?_⟩
      · dsimp only
        rw [same', onDisk.1]
      · dsimp only
        rw [same', same, saved, saved, onDisk.2, ← (Prod.mk.inj (pure_ok_iff.mp closed)).1]
        rfl
  · intro changed
    have closed : ∃ later ended, saved disk = some later ∧
        later.generations.lookup pending.generation = some ended ∧ ended.status.isOpen = false := by
      obtain ⟨middle, -, -, later⟩ := finishes.kept
      rw [same] at changed
      have stored : saved disk = some _ := changed.trans (congrArg Host.state later)
      exact ⟨_, _, stored, AList.lookup_insert _, Admission.isOpen_status reply⟩
    obtain ⟨later, ended, stored, lookup, shut⟩ := closed
    have refused : ∀ {found : State} {record : Record}, saved disk = some found →
        found.generations.lookup pending.generation = some record →
        ¬ record.status.isOpen = true := by
      intro found record stored' lookup' isOpen
      cases stored.symm.trans stored'
      cases lookup.symm.trans lookup'
      rw [shut] at isOpen
      cases isOpen
    refine ⟨fun kept => refused (kept.trans begins.loaded.stored) begins.record_eq begins.open_, ?_⟩
    rintro ⟨_, rerun, -⟩
    obtain ⟨pending', found, record', named, -, begins', -⟩ := complete_eq rerun
    exact refused begins'.loaded.stored (named ▸ begins'.record_eq) begins'.open_

/-- Wherever `initialize`, `advance` or `complete` is cut short, the state file is the old one or
the new one. With the old one each can be repeated with the same inputs, except that `complete` is
refused when a part of its trace was written; with the new one none can. -/
theorem crash_recovery (digest : Digest) (texts : Texts)
    (read : Bytes → Except String (List Json)) :
    (∀ source displayName document, Recovers (fun tokens => initializeHost digest texts source
      displayName document tokens.document tokens.generation) fun _ => True) ∧
    (∀ value, Recovers (fun tokens => advance digest texts value tokens.generation)
      fun _ => True) ∧
    ∀ generation trace, Recovers (fun _ => complete digest texts read generation trace)
      (TraceWhole generation trace) :=
  ⟨recovers_initializeHost, recovers_advance, recovers_complete⟩

theorem torn_stops
    (ran : (complete digest texts read generation trace start).result = .ok admission)
    (absent : start.host.files.lookup (traceFile generation) = none) {count : Nat}
    (inside : count ≤ trace.length) :
    (complete digest texts read generation trace).Stops start
      (start.put (traceFile generation) (.bytes (trace.take count))) := by
  obtain ⟨pending, state, record, rfl, rfl, begins, same⟩ := complete_eq ran
  rw [same] at ran
  obtain ⟨found, other, current, finishes⟩ :=
    finishCompletion_ok ((finishCompletion_realizes pending).ok ran)
  cases finishes.loaded.stored.symm.trans begins.loaded.stored
  cases finishes.record_eq.symm.trans begins.record_eq
  refine .inr ?_
  rw [same, finishCompletion, consult_bind (loadState_ok.mpr begins.loaded)]
  simp only [begins.record_eq, finishes.current_eq]
  rw [@consult_bind _ _ start _ _ () (require_ok.mpr begins.open_), consult_bind finishes.admitted]
  refine Effectful.mem_trail_bind ?_
  have retained : retainTrace texts (traceFile pending.generation) pending.trace start = _ :=
    Effectful.look_bind_of_ok rfl
  rw [absent] at retained
  have written : writeImmutable texts (traceFile pending.generation) (.bytes pending.trace) start =
    _ := Effectful.look_bind_of_ok (show require _ _ = Except.ok () by rw [absent]; rfl)
  rw [retained]
  show _ ∈ (writeImmutable texts (traceFile pending.generation) (.bytes pending.trace) start).trail
  rw [written]
  refine List.mem_append_left _ (List.mem_map.mpr ⟨count, List.mem_range.mpr ?_, rfl⟩)
  exact Nat.lt_succ_of_le inside

/-- A completion was cut short with an empty trace file: it is then refused. -/
theorem torn_trace_refused : ∃ start disk generation trace admission,
    (complete Digest.sample ⟨fun _ => [], fun _ => []⟩ (sampleReader 0 0) generation trace
      start).result = .ok admission ∧
    (complete Digest.sample ⟨fun _ => [], fun _ => []⟩ (sampleReader 0 0) generation trace).Stops
      start disk ∧
    (complete Digest.sample ⟨fun _ => [], fun _ => []⟩ (sampleReader 0 0) generation trace
      disk).result = .error "retained completion trace disagrees with an orphaned trace" := by
  let start : Disk := ⟨(System.empty.next Digest.sample (sampleReader 0 0) sampleOpen).host, []⟩
  have evaluated : (match (complete Digest.sample ⟨fun _ => [], fun _ => []⟩ (sampleReader 0 0)
      (generationName 0 .sample) [1] start).result,
      (complete Digest.sample ⟨fun _ => [], fun _ => []⟩ (sampleReader 0 0)
        (generationName 0 .sample) [1] (start.put (traceFile (generationName 0 .sample))
          (.bytes []))).result with
    | .ok _, .error message =>
      message == "retained completion trace disagrees with an orphaned trace"
    | _, _ => false) = true := by decide +kernel
  split at evaluated
  · rename_i admission message ran refused
    have absent : start.host.files.lookup (traceFile (generationName 0 .sample)) = none :=
      Option.isNone_iff_eq_none.mp (by decide +kernel)
    exact ⟨start, _, _, [1], admission, ran, torn_stops ran absent (Nat.zero_le _),
      refused.trans (congrArg _ (beq_iff_eq.mp evaluated))⟩
  · cases evaluated

end Fine.Rainfall.Durable
