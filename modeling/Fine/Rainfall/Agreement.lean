import Fine.Rainfall.Reload

/-!
# Transport in the host and in the projection

The host moves the spans it displays; the projection moves those of the source nodes. Both lead to
the same annotations.
-/

namespace Fine.Rainfall

open List

variable {digest : Digest} {read : Bytes → Except String (List Json)}

variable {edits : List Edit}

variable {events : List Json} {source : Bytes} {mark : Annotation} {host later : Host}
  {old state : State} {value : Json} {token : Token}

theorem annotate_transport {objects : Catalog} {assertions lemmas : List (Json × Json)}
    {displayed : Bytes} (nonempty : edits ≠ []) {event : Json}
    (run : annotate events objects assertions lemmas source [] event = .ok mark) :
    annotate events objects assertions lemmas displayed edits event =
      .ok (transportAnnotationSpan displayed edits mark) := by
  have some_edit : edits.isEmpty = false := by simpa using nonempty
  simp only [annotate, Json.at_bind_ok, subscript_bind_ok] at run ⊢
  obtain ⟨data, source_, node, term, known, span, start, startOffset, stop, stopOffset, snapshot,
    correspondence, eventId, within, kind, text, run⟩ := run
  obtain ⟨activity, shown, same⟩ := bind_ok_iff.mp run
  refine ⟨data, source_, node, term, known, span, start, startOffset, stop, stopOffset, snapshot,
    correspondence, eventId, within, kind, text, bind_ok_iff.mpr ⟨activity, shown, ?_⟩⟩
  rw [← pure_ok_iff.mp same]
  simp only [transportAnnotationSpan, place, isEmpty_nil, if_true, some_edit,
    Bool.false_eq_true, if_false, sourceSpan, sourcePosition]
  split <;> simp_all [pure, Except.pure]

/-- Projection through edits moves the annotations of the one without. -/
theorem project_transport (nonempty : edits ≠ []) {projection : Projection} {shown : Bytes}
    (run : project digest source events [] = .ok (projection, shown)) :
    ∃ projected, project digest source events edits = .ok (projected, applyEdits source edits) ∧
      projected.annotations =
        projection.annotations.map (transportAnnotationSpan (applyEdits source edits) edits) := by
  have plain : applyEdits source [] = source := drop_zero
  simp only [project, bind_ok_iff, plain] at run
  obtain ⟨counts, validated, objects, found, identity, identity_eq, document, document_eq, revision,
    revision_eq, assertions, asserted, lemmas, inferred, annotations, made, id, id_eq, same⟩ := run
  cases pure_ok_iff.mp same
  have moved : objects.evidence.mapM (annotate events objects assertions lemmas
      (applyEdits source edits) edits) = .ok
        (annotations.map (transportAnnotationSpan (applyEdits source edits) edits)) := by
    rw [Fallible.mapM_ok_iff] at made ⊢
    rw [forall₂_map_right_iff]
    exact made.imp fun event mark run => annotate_transport nonempty run
  refine ⟨⟨objects.document, objects.snapshot, ⟨edits.isEmpty,
    if edits.isEmpty then some id else none, ⟨document.str, revision.integer.toNat +
      (if edits.isEmpty then 0 else 1), digest.identity (applyEdits source edits),
      (applyEdits source edits).length⟩⟩, edits, _⟩, ?_, rfl⟩
  simp only [project, bind_ok_iff]
  exact ⟨counts, validated, objects, found, identity, identity_eq, document, document_eq, revision,
    revision_eq, assertions, asserted, lemmas, inferred, _, moved, id, id_eq, rfl⟩

/-- What becomes of an annotation without new evidence. -/
structure MarkMoves (length : Nat) (old new : Annotation) : Prop where
  claim : new.claim = old.claim
  unplaced : old.status = .unplaced → new.status = .unplaced
  placed : new.status ≠ .unplaced → ∃ span, new.displaySpan = some span ∧
    0 ≤ span.start.offset ∧ span.start.offset < span.stop.offset ∧ span.stop.offset ≤ length
  current : new.status = .current → old.status = .current

/-- An annotation that passes is placed in the source, or unplaced. -/
theorem checkAnnotationSpan_ok {length : Nat} (checked : checkAnnotationSpan length mark = .ok ()) :
    (mark.status = .unplaced → mark.displaySpan = none) ∧
      (mark.status ≠ .unplaced → ∃ span, mark.displaySpan = some span ∧ 0 ≤ span.start.offset ∧
        span.start.offset < span.stop.offset ∧ span.stop.offset ≤ length) := by
  rw [checkAnnotationSpan] at checked
  cases is : mark.status with
  | unplaced =>
    rw [is] at checked
    exact ⟨fun _ => Option.isNone_iff_eq_none.mp (require_ok.mp checked), fun other => absurd rfl other⟩
  | current | transported =>
    cases shown : mark.displaySpan with
    | none =>
      rw [is, shown] at checked
      cases checked
    | some span =>
      rw [is, shown] at checked
      refine ⟨fun other => ?_, fun _ => ⟨span, rfl, of_decide_eq_true (require_ok.mp checked)⟩⟩
      cases other

/-- The annotations of a state in the order they are kept in. -/
def State.Moves (state later : State) : Prop :=
  Forall₂ (MarkMoves (Utf8.encode later.displaySource).length) state.annotations
    later.annotations

/-- Every section but the second of `complete`. -/
def Call.keepsEvidence : Call → Bool
  | .finish _ => false
  | _ => true

theorem Advances.moves {first : State} (advances : Advances digest host later old value edits token)
    (stored : later.state = some state) (moves : first.Moves old) : first.Moves state := by
  have placed := advances.placed stored
  obtain ⟨text, previous, decoded, _, _, _, rfl⟩ := advances.advanced
  cases stored
  refine forall₂_map_right_iff.mpr (forall₂_iff_get.mpr ⟨moves.length_eq, ?_⟩)
  intro index inside within
  have before := (forall₂_iff_get.mp moves).2 index inside within
  have there : old.annotations.get ⟨index, within⟩ ∈ old.annotations := get_mem _ _
  generalize first.annotations.get ⟨index, inside⟩ = mark at before
  generalize old.annotations.get ⟨index, within⟩ = moved at before there
  have checked := checkAnnotationSpan_ok (placed _ (mem_map_of_mem there))
  refine ⟨?_, ?_, checked.2, fun is => absurd is (transportAnnotation_status _ _ _)⟩
  · rw [← before.claim, transportAnnotationSpan]
    split
    · rfl
    · split <;> rfl
  · intro gone
    have nowhere := (checkAnnotationSpan_ok (advances.loaded.placed _ there)).1
      (before.unplaced gone)
    simp only [transportAnnotationSpan, nowhere]

/-- While no evidence is admitted every annotation moves. -/
theorem Reaches.moves {system later : System} {calls : List Call}
    (reached : Reaches digest read system calls later)
    (quiet : ∀ call ∈ calls, call.keepsEvidence = true) (loaded : Loaded digest system.host state) :
    ∃ final, later.host.state = some final ∧ state.Moves final := by
  induction reached with
  | start =>
    refine ⟨state, loaded.stored, forall₂_same.mpr fun mark member => ?_⟩
    exact ⟨rfl, id, (checkAnnotationSpan_ok (loaded.placed mark member)).2, id⟩
  | step before call allowed ih =>
    rename_i middle calls
    obtain ⟨old, stored, moves⟩ := ih fun call member => quiet call (mem_append_left _ member)
    have last := quiet call (mem_append_right _ (mem_singleton_self _))
    have advanced : ∀ {host : Host} {found : State} {value : Json} {edits : List Edit}
        {token : Token}, Advances digest middle.host host found value edits token →
        ∃ final, host.state = some final ∧ state.Moves final := by
      intro host found value edits token advances
      cases advances.loaded.stored.symm.trans stored
      obtain ⟨_, _, _, _, _, _, later⟩ := advances.advanced
      have kept : ∃ final, host.state = some final := ⟨_, congrArg Host.state later⟩
      obtain ⟨final, final_eq⟩ := kept
      exact ⟨final, final_eq, advances.moves final_eq moves⟩
    rcases next_cases middle call with commits | ⟨_, same⟩
    · generalize middle.next digest read call = next at commits
      cases commits with
      | opened opens => cases opens.absent.symm.trans stored
      | advanced advances | materialized advances => exact advanced advances
      | began begins generation_eq trace_eq => exact ⟨old, stored, moves⟩
      | finished finishes => cases last
      | failed fails =>
        cases fails.loaded.stored.symm.trans stored
        obtain rfl := fails.later_eq
        exact ⟨_, rfl, moves⟩
    · rw [same]
      exact ⟨old, stored, moves⟩

theorem Advances.readable (advances : Advances digest host later old value edits token)
    (indexed : Indexed digest host old) (stored : later.state = some state) :
    Loaded digest later state := by
  obtain ⟨found, found_eq, holds, _⟩ := advances.indexed indexed
  cases found_eq.symm.trans stored
  exact ⟨stored, holds.checkState (advances.placed stored)⟩

/-- Evidence that was admitted for what is displayed, and edits of that: the host shows what the
projection of the replay through the edits has, in the same order. While nothing is admitted, what
is unplaced stays so, what is placed keeps a place in what is displayed, and nothing becomes
current. -/
theorem advance_projects {calls : List Call} {system : System} {pending : Pending} {state : State}
    {admittedHost : Host} {generation : String} {snapshot : Json} {projection : Projection}
    (reached : Reaches digest read System.empty calls system)
    (stored : system.host.state = some state)
    (same : pending.candidateSource = Utf8.encode state.displaySource)
    (admits : finishCompletion digest pending system.host =
      .ok (admittedHost, .admitted generation snapshot projection))
    (spans : NonemptySpans pending.events) {value : Json} {edits : List Edit} {text : String}
    {token : Token}
    (edits_eq : loadEdits value (Utf8.encode state.displaySource).length = .ok edits)
    (nonempty : edits ≠ [])
    (decoded : Utf8.decode (applyEdits (Utf8.encode state.displaySource) edits) = some text)
    (sourceNew :
      admittedHost.files.lookup (sourceFile (state.displaySnapshot.revision + 1) token) = none)
    (requestNew :
      admittedHost.files.lookup (requestFile (state.displaySnapshot.revision + 1) token) = none) :
    ∃ host action advanced projected,
      advance digest value token admittedHost = .ok (host, action) ∧
      host.state = some advanced ∧
      project digest pending.candidateSource pending.events edits =
        .ok (projected, applyEdits pending.candidateSource edits) ∧
      advanced.annotations = projected.annotations ∧
      ∀ more waiting later, Reaches digest read ⟨host, waiting⟩ more later →
        (∀ call ∈ more, call.keepsEvidence = true) →
          ∃ final, later.host.state = some final ∧ advanced.Moves final := by
  obtain ⟨old, record, current, finishes⟩ := finishCompletion_ok admits
  cases finishes.loaded.stored.symm.trans stored
  obtain ⟨-, admission⟩ := admit_admitted finishes.admitted
  obtain ⟨shown, plain⟩ := admission.projected
  have indexed := (Commits.finished finishes : Commits digest read system (.finish pending) _).indexed
    reached.indexed
  have placed : ∀ {closed}, admittedHost.state = some closed → closed.Placed :=
    finishes.placed spans
  obtain ⟨middle, kept, -, rfl⟩ := finishes.kept
  have indexed := indexed _ rfl
  obtain ⟨previous, previous_eq, -⟩ := indexed.current
  obtain ⟨action, runs⟩ := advance_of (indexed.checkState (placed rfl)) edits_eq nonempty decoded
    previous_eq indexed.document
  have run := runs _ rfl sourceNew requestNew
  obtain ⟨projected, projected_eq, moved⟩ := project_transport nonempty plain
  obtain ⟨found, _, advances⟩ := advance_ok run
  cases advances.loaded.stored
  refine ⟨_, action, _, projected, run, rfl, projected_eq, ?_, ?_⟩
  · rw [moved, same]
    rfl
  · intro more waiting later onward quiet
    exact onward.moves quiet (advances.readable indexed rfl)

/-- A completion is admitted, and an edit shows its projection. -/
theorem advance_projects_sample : ∃ state admittedHost generation snapshot projection host action
      advanced projected edits,
    (sampleBegun 0).host.state = some state ∧
    finishCompletion Digest.sample (samplePending (sampleBegun 0)) (sampleBegun 0).host =
      .ok (admittedHost, .admitted generation snapshot projection) ∧
    advance Digest.sample (.array [.object [("from", .int 1), ("to", .int 1),
      ("insert", .text " ")]]) .sample admittedHost = .ok (host, action) ∧
    host.state = some advanced ∧
    project Digest.sample (samplePending (sampleBegun 0)).candidateSource
      (samplePending (sampleBegun 0)).events edits = .ok (projected,
        applyEdits (samplePending (sampleBegun 0)).candidateSource edits) ∧
    advanced.annotations = projected.annotations := by
  have shown : ((sampleBegun 0).host.state.map fun state => state.displaySource == "x=1" &&
      state.displaySnapshot.revision == 0) = some true := by decide +kernel
  obtain ⟨state, stored, holds⟩ := Option.map_eq_some_iff.mp shown
  simp only [Bool.and_eq_true, beq_iff_eq] at holds
  have reached : Reaches Digest.sample (sampleReader 0 0) System.empty
      ([] ++ [sampleOpen] ++ [.begin_ (generationName 0 .sample) []]) (sampleBegun 0) :=
    ((Reaches.start System.empty).step sampleOpen trivial).step _ trivial
  have evaluated : (match finishCompletion Digest.sample (samplePending (sampleBegun 0))
      (sampleBegun 0).host with
    | .ok (host, .admitted _ _ _) => (host.files.lookup (sourceFile 1 .sample)).isNone &&
        (host.files.lookup (requestFile 1 .sample)).isNone
    | _ => false) = true := by decide +kernel
  have source : (samplePending (sampleBegun 0)).candidateSource = Utf8.encode "x=1" := by
    decide +kernel
  have loads : loadEdits (.array [.object [("from", .int 1), ("to", .int 1), ("insert", .text " ")]])
      (Utf8.encode state.displaySource).length = .ok [⟨1, 1, Utf8.encode " ", " "⟩] := by
    rw [holds.1]
    rfl
  have decoded : Utf8.decode (applyEdits (Utf8.encode state.displaySource)
      [⟨1, 1, Utf8.encode " ", " "⟩]) = some "x =1" := by
    rw [holds.1]
    decide +kernel
  split at evaluated
  · rename_i admittedHost generation snapshot projection admits
    simp only [Bool.and_eq_true, Option.isNone_iff_eq_none] at evaluated
    obtain ⟨host, action, advanced, projected, run, saved, projects, same, -⟩ :=
      advance_projects reached stored (by rw [source, holds.1]) admits samplePending_spans
        loads (by simp) decoded (by rw [holds.2]; exact evaluated.1) (by rw [holds.2]; exact evaluated.2)
    exact ⟨state, admittedHost, generation, snapshot, projection, host, action, advanced, projected,
      _, stored, admits, run, saved, projects, same⟩
  · cases evaluated

end Fine.Rainfall
