import Fine.Rainfall.Sections

/-!
# The generations of a host

`Indexed` is what every state of a run keeps: one generation for each revision, of which only the
current one, about the displayed source, may still be requested.
-/

namespace Fine.Rainfall

variable {digest : Digest} {read : Bytes → Except String (List Json)}

variable {token : Token} {state : State} {generation : String} {host : Host} {later system : System}
  {calls : List Call}

theorem generationName_revision {revision other : Nat} {another : Token}
    (same : generationName revision token = generationName other another) : revision = other := by
  have letters := congrArg String.toList same
  simp only [generationName, String.toList_append, List.append_assoc] at letters
  have numerals := List.append_cancel_left letters
  have digits (number : Nat) : (toString number).toList = Scan.decimal number := by
    simp [Scan.decimal, toString]
  have colon : ":".toList = [':'] := rfl
  rw [digits, digits, colon] at numerals
  have stops (rest : List Char) : Scan.Stops Char.isDigit ([':'] ++ rest) := by
    rw [List.singleton_append, Scan.stops_cons]
    rfl
  have words := congrArg (List.takeWhile Char.isDigit) numerals
  rw [Scan.takeWhile_word (Scan.decimal_digits revision) (stops _),
    Scan.takeWhile_word (Scan.decimal_digits other) (stops _)] at words
  exact Scan.decimal_injective words

/-- The record is the one it was issued with, for a source that is kept. -/
structure Issued (digest : Digest) (host : Host) (state : State) (generation : String)
    (record : Record) (revision : Nat) (source : Bytes) (token : Token) : Prop where
  revision_le : revision ≤ state.displaySnapshot.revision
  name : generation = generationName revision token
  request : record.request = requestOf digest state.document.id revision source token
  sourceFile : record.sourceFile = sourceFile revision token
  requestFile : record.requestFile = requestFile revision token
  kept : host.files.lookup record.sourceFile = some (.bytes source)

/-- What every state of a run keeps about its generations. -/
structure Indexed (digest : Digest) (host : Host) (state : State) : Prop where
  identity : state.displaySnapshot = sourceIdentity digest (Utf8.encode state.displaySource)
    state.document.id state.displaySnapshot.revision
  document : state.document.id ≠ ""
  issued : ∀ generation record, state.generations.lookup generation = some record →
    ∃ revision source token, Issued digest host state generation record revision source token
  unique : ∀ generation another record other,
    state.generations.lookup generation = some record →
    state.generations.lookup another = some other →
    record.request.displaySnapshot.revision = other.request.displaySnapshot.revision →
    generation = another
  covered : ∀ revision ≤ state.displaySnapshot.revision, ∃ generation record,
    state.generations.lookup generation = some record ∧
      record.request.displaySnapshot.revision = revision
  current : ∃ record, state.generations.lookup state.currentGeneration = some record ∧
    record.request.displaySnapshot = state.displaySnapshot
  requested : ∀ generation record, state.generations.lookup generation = some record →
    record.status = .requested → generation = state.currentGeneration

theorem lookup_insert_cases {state : AList fun _ : String => Record} {name : String}
    {record found : Record} (there : (state.insert name record).lookup generation = some found) :
    (generation = name ∧ found = record) ∨
      (generation ≠ name ∧ state.lookup generation = some found) := by
  by_cases same : generation = name
  · subst same
    rw [AList.lookup_insert] at there
    exact .inl ⟨rfl, (Option.some.inj there).symm⟩
  · rw [AList.lookup_insert_ne same] at there
    exact .inr ⟨same, there⟩

/-- A generation that ends keeps request, files and place. -/
theorem Indexed.close {later : Host} {record closed : Record} {annotations : List Annotation}
    (indexed : Indexed digest host state)
    (record_eq : state.generations.lookup generation = some record)
    (request : closed.request = record.request) (sourceFile : closed.sourceFile = record.sourceFile)
    (requestFile : closed.requestFile = record.requestFile) (status : closed.status ≠ .requested)
    (files : ∀ path content, host.files.lookup path = some content →
      later.files.lookup path = some content) :
    Indexed digest later { state with
      generations := state.generations.insert generation closed
      annotations := annotations } := by
  -- Every record after the change has the request of the record that was there before.
  have before : ∀ name found, (state.generations.insert generation closed).lookup name =
      some found → ∃ old, state.generations.lookup name = some old ∧
        found.request = old.request ∧ found.sourceFile = old.sourceFile ∧
        found.requestFile = old.requestFile ∧
        (found.status = .requested → old.status = .requested) := by
    intro name found there
    obtain ⟨rfl, rfl⟩ | ⟨_, there⟩ := lookup_insert_cases there
    · exact ⟨record, record_eq, request, sourceFile, requestFile, fun same => absurd same status⟩
    · exact ⟨found, there, rfl, rfl, rfl, id⟩
  have after : ∀ name old, state.generations.lookup name = some old →
      ∃ found, (state.generations.insert generation closed).lookup name = some found ∧
        found.request = old.request := by
    intro name old there
    by_cases same : name = generation
    · subst same
      rw [record_eq] at there
      cases there
      exact ⟨closed, AList.lookup_insert _, request⟩
    · exact ⟨old, (AList.lookup_insert_ne same).trans there, rfl⟩
  constructor
  · exact indexed.identity
  · exact indexed.document
  · intro name found there
    obtain ⟨old, old_eq, request, sourceFile, requestFile, _⟩ := before name found there
    obtain ⟨revision, source, token, issued⟩ := indexed.issued name old old_eq
    exact ⟨revision, source, token, issued.revision_le, issued.name, request.trans issued.request,
      sourceFile.trans issued.sourceFile, requestFile.trans issued.requestFile,
      files _ _ (sourceFile ▸ issued.kept)⟩
  · intro name another found other there elsewhere same
    obtain ⟨old, old_eq, request, _⟩ := before name found there
    obtain ⟨oldOther, other_eq, otherRequest, _⟩ := before another other elsewhere
    rw [request, otherRequest] at same
    exact indexed.unique name another old oldOther old_eq other_eq same
  · intro revision below
    obtain ⟨name, old, old_eq, same⟩ := indexed.covered revision below
    obtain ⟨found, found_eq, request⟩ := after name old old_eq
    exact ⟨name, found, found_eq, by rw [request]; exact same⟩
  · obtain ⟨old, old_eq, same⟩ := indexed.current
    obtain ⟨found, found_eq, request⟩ := after _ old old_eq
    exact ⟨found, found_eq, by rw [request]; exact same⟩
  · intro name found there asked
    obtain ⟨old, old_eq, _, _, _, status⟩ := before name found there
    exact indexed.requested name old old_eq (status asked)

variable {document : String} {source : Bytes} {value : Json} {call : Call}

theorem Host.issue_files {revision : Nat}
    (fresh : host.files.lookup (sourceFile revision token) = none) {path : Path} {content : Bytes}
    (there : host.files.lookup path = some (.bytes content))
    (isSource : ∃ other another, path = sourceFile other another) :
    (host.issue digest document revision source token).files.lookup path =
      some (.bytes content) := by
  obtain ⟨other, another, rfl⟩ := isSource
  have old : sourceFile other another ≠ sourceFile revision token := by
    intro same
    rw [same, fresh] at there
    cases there
  rw [Host.issue, AList.lookup_insert_ne (sourceFile_ne_requestFile _ _ _ _),
    AList.lookup_insert_ne old]
  exact there

theorem Host.issue_source {revision : Nat} :
    (host.issue digest document revision source token).files.lookup (sourceFile revision token) =
      some (.bytes source) := by
  rw [Host.issue, AList.lookup_insert_ne (sourceFile_ne_requestFile _ _ _ _), AList.lookup_insert]

/-- The first state of a host. -/
theorem Opens.indexed {later : Host} {displayName : String}
    (opens : Opens digest host later source displayName token) :
    ∃ state, later.state = some state ∧ Indexed digest later state ∧ state.annotations = [] ∧
      state.displaySnapshot.revision = 0 := by
  obtain ⟨text, documentId, decoded, document, fresh, rfl⟩ := opens.opened
  have bytes := Utf8.encode_of_decode decoded
  have only : ∀ generation record,
      (AList.insert (generationName 0 token) (recordOf digest documentId 0 source token)
        (∅ : AList fun _ : String => Record)).lookup generation = some record →
      generation = generationName 0 token ∧ record = recordOf digest documentId 0 source token := by
    intro generation record there
    obtain same | ⟨_, there⟩ := lookup_insert_cases there
    · exact same
    · cases there
  refine ⟨_, rfl, ?_, rfl, rfl⟩
  constructor
  · show sourceIdentity digest source documentId 0 = sourceIdentity digest (Utf8.encode text)
      documentId 0
    rw [bytes]
  · exact document
  · intro generation record there
    obtain ⟨rfl, rfl⟩ := only generation record there
    exact ⟨0, source, token, le_rfl, rfl, rfl, rfl, rfl, Host.issue_source⟩
  · intro generation another record other there elsewhere _
    rw [(only _ _ there).1, (only _ _ elsewhere).1]
  · intro revision below
    obtain rfl : revision = 0 := Nat.le_zero.mp below
    exact ⟨_, _, AList.lookup_insert _, rfl⟩
  · exact ⟨_, AList.lookup_insert _, rfl⟩
  · intro generation record there _
    exact (only generation record there).1

theorem supersede_request (record : Record) : (supersede record).request = record.request ∧
    (supersede record).sourceFile = record.sourceFile ∧
    (supersede record).requestFile = record.requestFile ∧
    (supersede record).status ≠ .requested := by
  rw [supersede]
  split_ifs with asked
  · exact ⟨rfl, rfl, rfl, by simp⟩
  · exact ⟨rfl, rfl, rfl, asked⟩

/-- A state after a transaction. -/
theorem Advances.indexed {later : Host} {edits : List Edit}
    (advances : Advances digest host later state value edits token)
    (indexed : Indexed digest host state) :
    ∃ advanced, later.state = some advanced ∧ Indexed digest later advanced ∧
      advanced.displaySnapshot.revision = state.displaySnapshot.revision + 1 := by
  obtain ⟨text, previous, decoded, current, document, fresh, rfl⟩ := advances.advanced
  have bytes := Utf8.encode_of_decode decoded
  obtain ⟨request, sourceFile, requestFile, status⟩ := supersede_request previous
  set displayed := applyEdits (Utf8.encode state.displaySource) edits with displayed_eq
  set revision := state.displaySnapshot.revision with revision_eq
  -- The generations before the new one are those of the state, with the current one superseded.
  have closed : Indexed digest host { state with
      generations := state.generations.insert state.currentGeneration (supersede previous)
      annotations := state.annotations } :=
    indexed.close current request sourceFile requestFile status fun _ _ there => there
  have below : ∀ generation record, (state.generations.insert state.currentGeneration
      (supersede previous)).lookup generation = some record →
        record.request.displaySnapshot.revision ≤ revision ∧
        generation ≠ generationName (revision + 1) token := by
    intro generation record there
    obtain ⟨old, source, another, issued⟩ := closed.issued generation record there
    have old_le : old ≤ revision := issued.revision_le
    refine ⟨by rw [issued.request]; exact old_le, ?_⟩
    rw [issued.name]
    intro same
    have := generationName_revision same
    omega
  have older : ∀ generation record, (state.generations.insert state.currentGeneration
      (supersede previous)).lookup generation = some record →
      ((state.generations.insert state.currentGeneration (supersede previous)).insert
        (generationName (revision + 1) token)
        (recordOf digest state.document.id (revision + 1) displayed token)).lookup generation =
          some record := by
    intro generation record there
    rw [AList.lookup_insert_ne (below generation record there).2]
    exact there
  refine ⟨_, rfl, ?_, rfl⟩
  constructor
  · show sourceIdentity digest displayed state.document.id (revision + 1) =
      sourceIdentity digest (Utf8.encode text) state.document.id (revision + 1)
    rw [bytes]
  · exact document
  · intro generation record there
    obtain ⟨rfl, rfl⟩ | ⟨_, there⟩ := lookup_insert_cases there
    · exact ⟨revision + 1, displayed, token, le_rfl, rfl, rfl, rfl, rfl, Host.issue_source⟩
    · obtain ⟨old, source, another, issued⟩ := closed.issued generation record there
      refine ⟨old, source, another, Nat.le_succ_of_le issued.revision_le, issued.name,
        issued.request, issued.sourceFile, issued.requestFile, ?_⟩
      exact Host.issue_files fresh issued.kept ⟨old, another, issued.sourceFile⟩
  · intro generation another record other there elsewhere same
    obtain ⟨rfl, rfl⟩ | ⟨_, there⟩ := lookup_insert_cases there
    · obtain ⟨rfl, rfl⟩ | ⟨_, elsewhere⟩ := lookup_insert_cases elsewhere
      · rfl
      · have older := (below another other elsewhere).1
        have newer : revision + 1 = other.request.displaySnapshot.revision := same
        omega
    · obtain ⟨rfl, rfl⟩ | ⟨_, elsewhere⟩ := lookup_insert_cases elsewhere
      · have older := (below generation record there).1
        have newer : record.request.displaySnapshot.revision = revision + 1 := same
        omega
      · exact closed.unique generation another record other there elsewhere same
  · intro number below_number
    rcases Nat.lt_or_ge revision number with later | earlier
    · have same : number = revision + 1 := le_antisymm below_number later
      exact ⟨_, _, AList.lookup_insert _, same.symm⟩
    · obtain ⟨generation, record, there, same⟩ := closed.covered number earlier
      exact ⟨generation, record, older generation record there, same⟩
  · exact ⟨_, AList.lookup_insert _, rfl⟩
  · intro generation record there asked
    obtain ⟨rfl, rfl⟩ | ⟨_, there⟩ := lookup_insert_cases there
    · rfl
    · have name := closed.requested generation record there asked
      have found : record = supersede previous := by
        rw [name] at there
        exact (Option.some.inj ((AList.lookup_insert _).symm.trans there)).symm
      exact absurd (found ▸ asked) status

theorem Admission.status_ne (admission : Admission) : admission.status ≠ .requested := by
  cases admission <;> simp [Admission.status]

/-- What holds of the state file of every system of a run. -/
def System.Indexed (digest : Digest) (system : System) : Prop :=
  ∀ state, system.host.state = some state → Rainfall.Indexed digest system.host state

theorem Commits.indexed (commits : Commits digest read system call later)
    (indexed : system.Indexed digest) : later.Indexed digest := by
  intro state stored
  cases commits with
  | opened opens =>
    obtain ⟨first, first_eq, holds, _⟩ := opens.indexed
    cases first_eq.symm.trans stored
    exact holds
  | advanced advances | materialized advances =>
    obtain ⟨advanced, advanced_eq, holds, _⟩ := advances.indexed (indexed _ advances.loaded.stored)
    cases advanced_eq.symm.trans stored
    exact holds
  | began begins generation_eq trace_eq => exact indexed state stored
  | finished finishes =>
    obtain ⟨middle, _, files, rfl⟩ := finishes.kept
    cases stored
    exact (indexed _ finishes.loaded.stored).close finishes.record_eq rfl rfl rfl
      (Admission.status_ne _) files
  | failed fails =>
    obtain rfl := fails.later_eq
    cases stored
    exact (indexed _ fails.loaded.stored).close fails.record_eq rfl rfl rfl (by simp)
      fun _ _ there => there

theorem Reaches.keeps (property : System → Prop)
    (step : ∀ {system later call}, Commits digest read system call later → system.allows call →
      property system → property later) (reached : Reaches digest read system calls later)
    (holds : property system) : property later := by
  induction reached with
  | start => exact holds
  | step _ call allowed ih =>
    rcases next_cases _ call with commits | ⟨_, same⟩
    · exact step commits allowed ih
    · rw [same]
      exact ih

theorem Reaches.indexed (reached : Reaches digest read System.empty calls system) :
    system.Indexed digest :=
  reached.keeps _ (fun commits _ => commits.indexed) fun _ stored => by cases stored

def Call.ends (generation : String) : Call → Bool
  | .finish pending => pending.generation == generation
  | .markFailed name _ => name == generation
  | _ => false

def Call.edits : Call → Bool
  | .advance _ _ => true
  | .materialize _ => true
  | _ => false

section Counting

variable (digest : Digest) (read : Bytes → Except String (List Json))

/-- The section takes effect. -/
def System.succeeds (system : System) (call : Call) : Bool :=
  match system.call digest read call with
  | .ok _ => true
  | .error _ => false

/-- How many sections of a kind take effect in a run. -/
def effective (wanted : Call → Bool) : System → List Call → Nat
  | _, [] => 0
  | system, call :: calls =>
    (if wanted call && system.succeeds digest read call then 1 else 0) +
      effective wanted (system.next digest read call) calls

end Counting

theorem effective_append (wanted : Call → Bool) (system : System) (calls : List Call)
    (call : Call) :
    effective digest read wanted system (calls ++ [call]) =
      effective digest read wanted system calls +
        if wanted call && (calls.foldl (System.next digest read) system).succeeds digest read call
        then 1 else 0 := by
  induction calls generalizing system with
  | nil => simp [effective]
  | cons first calls ih => simp [effective, ih, Nat.add_assoc]

theorem Reaches.foldl_eq (reached : Reaches digest read system calls later) :
    calls.foldl (System.next digest read) system = later := by
  induction reached with
  | start => rfl
  | step _ call _ ih => rw [List.foldl_append, ih]; rfl

theorem succeeds_cases (digest : Digest) (read : Bytes → Except String (List Json))
    (system : System) (call : Call) :
    (system.succeeds digest read call = true ∧
        Commits digest read system call (system.next digest read call)) ∨
      (system.succeeds digest read call = false ∧ system.next digest read call = system) := by
  rw [System.succeeds, System.next]
  cases run : system.call digest read call with
  | ok later => exact .inl ⟨rfl, call_ok run⟩
  | error message => exact .inr ⟨rfl, rfl⟩

/-- A quantity that the sections of a kind raise by one counts them. -/
theorem Reaches.count {measure : System → Nat} {wanted : Call → Bool} (property : System → Prop)
    (keeps : ∀ {system later call}, Commits digest read system call later → system.allows call →
      property system → property later)
    (step : ∀ {system later call}, Commits digest read system call later → property system →
      measure later = measure system + if wanted call then 1 else 0)
    (reached : Reaches digest read system calls later) (holds : property system)
    (zero : measure system = 0) : effective digest read wanted system calls = measure later := by
  suffices property later ∧ effective digest read wanted system calls = measure later from this.2
  induction reached with
  | start => exact ⟨holds, zero.symm⟩
  | step reached call allowed ih =>
    obtain ⟨there, counted⟩ := ih
    rw [effective_append, reached.foldl_eq, counted]
    rcases succeeds_cases digest read _ call with ⟨effect, commits⟩ | ⟨none, same⟩
    · rw [effect, Bool.and_true, step commits there]
      exact ⟨keeps commits allowed there, rfl⟩
    · rw [none, same, Bool.and_false]
      exact ⟨there, by simp⟩

/-- The displayed revision, which counts from the first. -/
def System.revision (system : System) : Nat :=
  match system.host.state with
  | none => 0
  | some state => state.displaySnapshot.revision

theorem Commits.revision (commits : Commits digest read system call later)
    (indexed : system.Indexed digest) :
    later.revision = system.revision + if call.edits then 1 else 0 := by
  cases commits with
  | opened opens =>
    obtain ⟨first, first_eq, _, _, zero⟩ := opens.indexed
    simp [System.revision, first_eq, opens.absent, zero, Call.edits]
  | advanced advances | materialized advances =>
    obtain ⟨_, advanced_eq, _, more⟩ := advances.indexed (indexed _ advances.loaded.stored)
    simp [System.revision, advanced_eq, advances.loaded.stored, more, Call.edits]
  | began begins generation_eq trace_eq => simp [System.revision, Call.edits]
  | finished finishes =>
    obtain ⟨middle, _, _, rfl⟩ := finishes.kept
    simp [System.revision, finishes.loaded.stored, saveState, Call.edits]
  | failed fails =>
    obtain rfl := fails.later_eq
    simp [System.revision, fails.loaded.stored, saveState, Call.edits]

def System.record (system : System) (generation : String) : Option Record :=
  system.host.state.bind fun state => state.generations.lookup generation

/-- A closed status stays, and an open one is never requested again. -/
def Status.Leads (status later : Status) : Prop :=
  later = status ∨ status.isOpen = true ∧ later ≠ .requested

theorem Status.Leads.trans {first second third : Status} (here : first.Leads second)
    (there : second.Leads third) : first.Leads third := by
  rcases here with rfl | ⟨open_, not_asked⟩
  · exact there
  · rcases there with rfl | ⟨_, not_asked⟩
    · exact .inr ⟨open_, not_asked⟩
    · exact .inr ⟨open_, not_asked⟩

theorem leads_supersede (record : Record) : record.status.Leads (supersede record).status := by
  rw [supersede]
  split_ifs with asked
  · exact .inr ⟨by simp [asked, Status.isOpen], by simp⟩
  · exact .inl rfl

theorem isOpen_supersede (record : Record) :
    (supersede record).status.isOpen = record.status.isOpen := by
  rw [supersede]
  split_ifs with asked
  · simp [asked, Status.isOpen]
  · rfl

theorem Admission.isOpen_status (admission : Admission) : admission.status.isOpen = false := by
  cases admission <;> rfl

/-- The current record is superseded, and there is a new one. -/
theorem Advances.lookup {later : Host} {edits : List Edit}
    (advances : Advances digest host later state value edits token) :
    ∃ advanced previous, later.state = some advanced ∧
      state.generations.lookup state.currentGeneration = some previous ∧
      ∀ generation, advanced.generations.lookup generation =
        if generation = advanced.currentGeneration then
          some (recordOf digest state.document.id (state.displaySnapshot.revision + 1)
            (applyEdits (Utf8.encode state.displaySource) edits) token)
        else if generation = state.currentGeneration then some (supersede previous)
        else state.generations.lookup generation := by
  obtain ⟨text, previous, _, current, _, _, rfl⟩ := advances.advanced
  refine ⟨_, previous, rfl, current, fun generation => ?_⟩
  show _ = if generation = generationName (state.displaySnapshot.revision + 1) token then _ else _
  by_cases new : generation = generationName (state.displaySnapshot.revision + 1) token
  · rw [if_pos new, new]
    exact AList.lookup_insert _
  · rw [if_neg new]
    refine (AList.lookup_insert_ne new).trans ?_
    by_cases old : generation = state.currentGeneration
    · rw [if_pos old, old]
      exact AList.lookup_insert _
    · rw [if_neg old]
      exact AList.lookup_insert_ne old

theorem Advances.fresh {later : Host} {advanced : State} {edits : List Edit}
    (advances : Advances digest host later state value edits token)
    (stored : later.state = some advanced) (indexed : Indexed digest host state) :
    state.generations.lookup advanced.currentGeneration = none := by
  obtain ⟨text, previous, _, _, _, _, rfl⟩ := advances.advanced
  cases stored
  cases found : state.generations.lookup
      (generationName (state.displaySnapshot.revision + 1) token) with
  | none => exact found
  | some record =>
    obtain ⟨revision, source, another, issued⟩ := indexed.issued _ record found
    have same := generationName_revision issued.name
    have below := issued.revision_le
    omega

/-- Along a section a record stays, with a status that the old one leads to. -/
theorem Commits.leads (commits : Commits digest read system call later)
    (indexed : system.Indexed digest) {record : Record}
    (found : system.record generation = some record) :
    ∃ after, later.record generation = some after ∧ record.status.Leads after.status := by
  have closed {state : State} {name : String} {old new : Record}
      (old_eq : state.generations.lookup name = some old) (open_ : old.status.isOpen = true)
      (ended : new.status ≠ .requested)
      (there : state.generations.lookup generation = some record) :
      ∃ after, (state.generations.insert name new).lookup generation = some after ∧
        record.status.Leads after.status := by
    by_cases same : generation = name
    · subst same
      cases old_eq.symm.trans there
      exact ⟨new, AList.lookup_insert _, .inr ⟨open_, ended⟩⟩
    · exact ⟨record, (AList.lookup_insert_ne same).trans there, .inl rfl⟩
  have advanced {host : Host} {state : State} {value : Json} {edits : List Edit} {token : Token}
      (advances : Advances digest system.host host state value edits token) :
      ∃ after, System.record { system with host := host } generation = some after ∧
        record.status.Leads after.status := by
    have there : state.generations.lookup generation = some record := by
      simpa [System.record, advances.loaded.stored] using found
    obtain ⟨next, previous, stored, current, lookup⟩ := advances.lookup
    have other : generation ≠ next.currentGeneration := by
      rintro rfl
      rw [advances.fresh stored (indexed _ advances.loaded.stored)] at there
      cases there
    have after := lookup generation
    rw [if_neg other] at after
    by_cases old : generation = state.currentGeneration
    · rw [if_pos old] at after
      rw [old, current] at there
      cases there
      exact ⟨_, by simpa [System.record, stored] using after, leads_supersede _⟩
    · rw [if_neg old, there] at after
      exact ⟨_, by simpa [System.record, stored] using after, .inl rfl⟩
  cases commits with
  | opened opens => simp [System.record, opens.absent] at found
  | advanced advances | materialized advances => exact advanced advances
  | began begins generation_eq trace_eq => exact ⟨record, found, .inl rfl⟩
  | finished finishes =>
    obtain ⟨middle, _, _, rfl⟩ := finishes.kept
    exact closed finishes.record_eq finishes.open_ (Admission.status_ne _)
      (by simpa [System.record, finishes.loaded.stored] using found)
  | failed fails =>
    obtain rfl := fails.later_eq
    exact closed fails.record_eq fails.open_ (by simp)
      (by simpa [System.record, fails.loaded.stored] using found)

/-- Along a run a record stays, with a status that the old one leads to. -/
theorem Reaches.leads (reached : Reaches digest read system calls later)
    (indexed : system.Indexed digest) {record : Record}
    (found : system.record generation = some record) :
    ∃ after, later.record generation = some after ∧ record.status.Leads after.status := by
  have kept := reached.keeps (fun system => system.Indexed digest ∧
      ∃ after, system.record generation = some after ∧ record.status.Leads after.status)
    (fun commits _ ⟨indexed, after, after_eq, leads⟩ => by
      obtain ⟨next, next_eq, more⟩ := commits.leads indexed after_eq
      exact ⟨commits.indexed indexed, next, next_eq, leads.trans more⟩)
    ⟨indexed, record, found, .inl rfl⟩
  exact kept.2

def System.closed (generation : String) (system : System) : Nat :=
  match system.record generation with
  | none => 0
  | some record => if record.status.isOpen then 0 else 1

/-- Sections that end a generation close it, and no others. -/
theorem Commits.closed (commits : Commits digest read system call later)
    (indexed : system.Indexed digest) (generation : String) :
    later.closed generation = system.closed generation +
      if call.ends generation then 1 else 0 := by
  have ended {state : State} {name : String} {old new : Record}
      (stored : system.host.state = some state)
      (old_eq : state.generations.lookup name = some old) (open_ : old.status.isOpen = true)
      (shut : new.status.isOpen = false) {host : Host} {annotations : List Annotation} :
      System.closed generation { system with host := saveState host { state with
        generations := state.generations.insert name new, annotations := annotations } } =
      system.closed generation + if name == generation then 1 else 0 := by
    by_cases same : name = generation
    · subst same
      simp [System.closed, System.record, saveState, stored, old_eq, open_, shut]
    · have other : generation ≠ name := fun equal => same equal.symm
      simp [System.closed, System.record, saveState, stored, AList.lookup_insert_ne other, same]
  have advanced {host : Host} {state : State} {value : Json} {edits : List Edit} {token : Token}
      (advances : Advances digest system.host host state value edits token) :
      System.closed generation { system with host := host } = system.closed generation := by
    obtain ⟨next, previous, stored, current, lookup⟩ := advances.lookup
    simp only [System.closed, System.record, stored, advances.loaded.stored, Option.bind_some,
      lookup]
    by_cases new : generation = next.currentGeneration
    · rw [if_pos new, new, advances.fresh stored (indexed _ advances.loaded.stored)]
      rfl
    · rw [if_neg new]
      by_cases old : generation = state.currentGeneration
      · rw [if_pos old, old, current]
        simp only [isOpen_supersede]
      · rw [if_neg old]
  cases commits with
  | opened opens =>
    obtain ⟨text, documentId, _, _, _, rfl⟩ := opens.opened
    have before : system.closed generation = 0 := by
      simp [System.closed, System.record, opens.absent]
    rw [before]
    simp only [System.closed, System.record, saveState, Option.bind_some, Call.ends,
      Bool.false_eq_true, if_false]
    split
    · rfl
    · next record found =>
      obtain ⟨_, rfl⟩ | ⟨_, there⟩ := lookup_insert_cases found
      · rfl
      · cases there
  | advanced advances | materialized advances => simpa [Call.ends] using advanced advances
  | began begins generation_eq trace_eq => rfl
  | finished finishes =>
    obtain ⟨middle, _, _, rfl⟩ := finishes.kept
    exact ended finishes.loaded.stored finishes.record_eq finishes.open_ (Admission.isOpen_status _)
  | failed fails =>
    obtain rfl := fails.later_eq
    exact ended fails.loaded.stored fails.record_eq fails.open_ rfl

theorem markFailed_of_open {record : Record} (loaded : Loaded digest system.host state)
    (record_eq : state.generations.lookup generation = some record)
    (open_ : record.status.isOpen = true) (error : String) :
    system.succeeds digest read (.markFailed generation error) = true := by
  have load := loadState_ok.mpr loaded
  simp only [System.succeeds, System.call, markFailed, load, ok_bind, record_eq, open_, require,
    if_true]
  rfl

/-- A completion is recorded if its replay is judged and no other trace retained. -/
theorem finish_of_open {record current : Record} {pending : Pending} {admission : Admission}
    (loaded : Loaded digest system.host state)
    (record_eq : state.generations.lookup pending.generation = some record)
    (open_ : record.status.isOpen = true)
    (current_eq : state.generations.lookup state.currentGeneration = some current)
    (judged : admitReplay digest current.request (Utf8.encode state.displaySource)
      pending.candidateSource pending.events = .ok admission)
    (retained : ∀ content, system.host.files.lookup (traceFile pending.generation) =
      some content → content = .bytes pending.trace) :
    system.succeeds digest read (.finish pending) = true ∧
      ∃ after, (system.next digest read (.finish pending)).record pending.generation = some after ∧
        after.status = admission.status := by
  obtain ⟨kept, keeps⟩ : ∃ kept,
      retainTrace system.host (traceFile pending.generation) pending.trace = .ok kept := by
    rw [retainTrace]
    cases found : system.host.files.lookup (traceFile pending.generation) with
    | none => exact ⟨_, writeImmutable_ok.mpr ⟨found, rfl⟩⟩
    | some content =>
      rw [retained content found]
      exact ⟨system.host, by simp [require]⟩
  have finished := finishCompletion_eq loaded record_eq current_eq open_ judged
  rw [keeps] at finished
  simp only [System.succeeds, System.next, System.call, finished]
  exact ⟨rfl, _, AList.lookup_insert _, rfl⟩

/-- The generations of a host over a whole run and however it goes on. -/
structure GenerationMachine (digest : Digest) (read : Bytes → Except String (List Json))
    (calls : List Call) (system : System) : Prop where
  /-- The revision counts the edits that were committed. -/
  revision : ∀ state, system.host.state = some state →
    state.displaySnapshot.revision = effective digest read Call.edits System.empty calls
  /-- Each revision up to the displayed one has exactly one generation. -/
  onePerRevision : ∀ state, system.host.state = some state →
    ∀ revision ≤ state.displaySnapshot.revision, ∃! generation, ∃ record,
      state.generations.lookup generation = some record ∧
        record.request.displaySnapshot.revision = revision
  /-- No generation is of a later revision. -/
  bounded : ∀ state, system.host.state = some state → ∀ generation record,
    state.generations.lookup generation = some record →
      record.request.displaySnapshot.revision ≤ state.displaySnapshot.revision
  /-- The current generation was requested for what is displayed. -/
  current : ∀ state, system.host.state = some state → ∃ record,
    state.generations.lookup state.currentGeneration = some record ∧
      record.request.displaySnapshot = state.displaySnapshot
  /-- Only the current generation may still be requested. -/
  requested : ∀ state, system.host.state = some state → ∀ generation record,
    state.generations.lookup generation = some record → record.status = .requested →
      generation = state.currentGeneration
  /-- A superseded generation is never requested again. -/
  notAgain : ∀ more later, Reaches digest read system more later → ∀ generation record,
    system.record generation = some record → record.status = .superseded →
      ∃ after, later.record generation = some after ∧ after.status ≠ .requested
  /-- A generation that is admitted, discarded or failed stays so. -/
  final : ∀ more later, Reaches digest read system more later → ∀ generation record,
    system.record generation = some record → record.status.isOpen = false →
      ∃ after, later.record generation = some after ∧ after.status = record.status
  /-- Of the sections that end a generation exactly one takes effect, once it is ended. -/
  endedOnce : ∀ generation, effective digest read (Call.ends generation) System.empty calls =
    system.closed generation
  /-- The others fail and change nothing. -/
  refused : ∀ generation call, system.closed generation = 1 → call.ends generation = true →
    system.succeeds digest read call = false ∧ system.next digest read call = system
  /-- An open generation can be ended as long as the state can be read. -/
  endable : ∀ state generation record error, Loaded digest system.host state →
    state.generations.lookup generation = some record → record.status.isOpen = true →
      system.succeeds digest read (.markFailed generation error) = true
  /-- Its completion takes effect as well, and records how its replay was judged, unless the replay
  cannot be judged or another trace was retained. -/
  completable : ∀ state pending record current admission, Loaded digest system.host state →
    state.generations.lookup pending.generation = some record → record.status.isOpen = true →
    state.generations.lookup state.currentGeneration = some current →
    admitReplay digest current.request (Utf8.encode state.displaySource) pending.candidateSource
      pending.events = .ok admission →
    (∀ content, system.host.files.lookup (traceFile pending.generation) = some content →
      content = .bytes pending.trace) →
      system.succeeds digest read (.finish pending) = true ∧
      ∃ after, (system.next digest read (.finish pending)).record pending.generation = some after ∧
        after.status = admission.status

/-- Every interleaving of the sections keeps the generations in order. -/
theorem host_generation_machine {calls : List Call} {system : System}
    (reached : Reaches digest read System.empty calls system) :
    GenerationMachine digest read calls system := by
  have indexed := reached.indexed
  constructor
  · intro state stored
    have counted := reached.count (System.Indexed digest)
      (fun commits _ => commits.indexed) (fun commits holds => commits.revision holds)
      (fun _ stored => by cases stored) rfl
    rw [counted, System.revision, stored]
  · intro state stored revision below
    obtain ⟨generation, record, there, same⟩ := (indexed state stored).covered revision below
    refine ⟨generation, ⟨record, there, same⟩, ?_⟩
    rintro another ⟨other, elsewhere, again⟩
    exact (indexed state stored).unique _ _ _ _ elsewhere there (again.trans same.symm)
  · intro state stored generation record there
    obtain ⟨revision, source, token, issued⟩ := (indexed state stored).issued generation record there
    rw [issued.request]
    exact issued.revision_le
  · exact fun state stored => (indexed state stored).current
  · exact fun state stored => (indexed state stored).requested
  · intro more later reaches generation record found superseded
    obtain ⟨after, after_eq, leads⟩ := reaches.leads indexed found
    refine ⟨after, after_eq, ?_⟩
    rcases leads with same | ⟨_, other⟩
    · rw [same, superseded]
      simp
    · exact other
  · intro more later reaches generation record found closed
    obtain ⟨after, after_eq, leads⟩ := reaches.leads indexed found
    refine ⟨after, after_eq, ?_⟩
    rcases leads with same | ⟨open_, _⟩
    · exact same
    · rw [closed] at open_
      cases open_
  · intro generation
    exact reached.count (System.Indexed digest) (fun commits _ => commits.indexed)
      (fun commits holds => commits.closed holds generation) (fun _ stored => by cases stored) rfl
  · intro generation call closed ends
    rcases succeeds_cases digest read system call with ⟨_, commits⟩ | failed
    · have twice := commits.closed indexed generation
      have atMost (other : System) : other.closed generation ≤ 1 := by
        rw [System.closed]
        split
        · exact Nat.zero_le 1
        · split <;> decide
      have := atMost (system.next digest read call)
      rw [twice, closed, if_pos ends] at this
      omega
    · exact failed
  · intro state generation record error loaded record_eq open_
    exact markFailed_of_open loaded record_eq open_ error
  · intro state pending record current admission loaded record_eq open_ current_eq judged retained
    exact finish_of_open loaded record_eq open_ current_eq judged retained

def Token.sample : Token := ⟨"000000000000000000000000", rfl, rfl⟩

def DocumentToken.sample : DocumentToken := ⟨"00000000000000000000000000000000", rfl, rfl⟩

def sampleOpen : Call := .initialize_ sampleSource "source.fine" (some "document:0") .sample .sample

/-- The replay of a small source, with an edge from a place to its end. -/
def sampleTrace (revision : Nat) (start : Int) : List Json :=
  sampleReplay (generationName revision .sample) "document:0" revision sampleSource start 3
    sampleEdge

/-- Reads one replay whatever it is given. -/
def sampleReader (revision : Nat) (start : Int) : Bytes → Except String (List Json) :=
  fun _ => .ok (sampleTrace revision start)

/-- The completion that is under way in a small system. -/
def samplePending (system : System) : Pending := system.pending.headD ⟨"", [], [], []⟩

theorem samplePending_mem (one : system.pending.length = 1) :
    samplePending system ∈ system.pending := by
  rw [samplePending]
  cases all : system.pending with
  | nil =>
    rw [all] at one
    cases one
  | cons pending rest => exact List.mem_cons_self

/-- An opened host whose first completion has begun. -/
def sampleBegun (start : Int) : System :=
  (System.empty.next Digest.sample (sampleReader 0 start) sampleOpen).next Digest.sample
    (sampleReader 0 start) (.begin_ (generationName 0 .sample) [])

def sampleCalls (start : Int) : List Call :=
  [sampleOpen, .begin_ (generationName 0 .sample) [], .finish (samplePending (sampleBegun start))]

def sampleDone (start : Int) : System :=
  (sampleBegun start).next Digest.sample (sampleReader 0 start)
    (.finish (samplePending (sampleBegun start)))

theorem reaches_sampleDone {start : Int} (one : (sampleBegun start).pending.length = 1) :
    Reaches Digest.sample (sampleReader 0 start) System.empty (sampleCalls start)
      (sampleDone start) := by
  have first : Reaches Digest.sample (sampleReader 0 start) System.empty [] System.empty := .start _
  have opened := first.step sampleOpen trivial
  exact (opened.step (.begin_ (generationName 0 .sample) []) trivial).step _ (samplePending_mem one)

/-- A completion ends the first generation, and is refused when it is run once more. -/
theorem host_generation_machine_completed :
    GenerationMachine Digest.sample (sampleReader 0 0) (sampleCalls 0) (sampleDone 0) ∧
    (sampleDone 0).closed (generationName 0 .sample) = 1 ∧
    effective Digest.sample (sampleReader 0 0) (Call.ends (generationName 0 .sample)) System.empty
      (sampleCalls 0) = 1 ∧
    (sampleDone 0).succeeds Digest.sample (sampleReader 0 0)
      (.finish (samplePending (sampleBegun 0))) = false := by
  have reached := @reaches_sampleDone 0 (by decide +kernel)
  have machine := host_generation_machine reached
  have closed : (sampleDone 0).closed (generationName 0 .sample) = 1 := by decide +kernel
  have ends : (Call.finish (samplePending (sampleBegun 0))).ends (generationName 0 .sample) =
    true := by decide +kernel
  exact ⟨machine, closed, (machine.endedOnce _).trans closed, (machine.refused _ _ closed ends).1⟩

end Fine.Rainfall
