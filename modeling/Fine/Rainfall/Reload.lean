import Fine.Rainfall.Evidence

/-!
# Saved states can be read again

The reader of the state file checks again what the writers keep.
-/

namespace Fine.Rainfall

open List

variable {digest : Digest} {read : Bytes → Except String (List Json)}

/-- Edits in order from a place on, that do not overlap. -/
def Fitting (length : Nat) : Nat → List Edit → Prop
  | _, [] => True
  | cursor, edit :: edits =>
    cursor ≤ edit.start ∧ edit.start ≤ edit.stop ∧ edit.stop ≤ length ∧
      Fitting length edit.stop edits

variable {length : Nat} {edits : List Edit} {state : State}

variable {cursor : Nat} {value : Json} {source : Bytes} {host later : Host} {record : Record}
  {token : Token} {mark : Annotation} {old : State}

theorem loadEditsFrom_fitting {index : Nat} {previous : Int} {items : List Json}
    (run : loadEditsFrom length index previous cursor items = .ok edits) :
    Fitting length cursor edits := by
  induction items generalizing index cursor previous edits with
  | nil =>
    cases pure_ok_iff.mp run
    trivial
  | cons item items ih =>
    simp only [loadEditsFrom, require_bind_ok, decide_eq_true_eq] at run
    obtain ⟨_, _, _, _, _, ⟨nonnegative, ordered, inside⟩, after, _, run⟩ := run
    obtain ⟨rest, rest_eq, same⟩ := bind_ok_iff.mp run
    cases pure_ok_iff.mp same
    have stop : ((item.get "to").integer.toNat : Int) = (item.get "to").integer :=
      Int.toNat_of_nonneg (le_trans nonnegative ordered)
    rw [← stop] at rest_eq
    refine ⟨?_, ?_, ?_, ih rest_eq⟩ <;> dsimp only <;> omega

theorem loadEdits_fitting (run : loadEdits value length = .ok edits) : Fitting length 0 edits := by
  simp only [loadEdits, require_bind_ok] at run
  exact loadEditsFrom_fitting run.2.2

def totalDelta (edits : List Edit) : Int := (edits.map Edit.delta).sum

theorem totalDelta_cons (edit : Edit) (edits : List Edit) : totalDelta (edit :: edits) =
    edit.insert.length - (edit.stop - edit.start : Int) + totalDelta edits := by
  simp [totalDelta, Edit.delta]

theorem length_applyFrom (fitting : Fitting source.length cursor edits)
    (inside : cursor ≤ source.length) :
    ((applyFrom source cursor edits).length : Int) =
      source.length - cursor + totalDelta edits := by
  induction edits generalizing cursor with
  | nil =>
    simp only [applyFrom, length_drop, totalDelta, map_nil, sum_nil]
    omega
  | cons edit edits ih =>
    obtain ⟨after, ordered, within, rest⟩ := fitting
    have tail := ih rest within
    rw [totalDelta_cons]
    simp only [applyFrom, length_append, length_drop, length_take]
    omega

theorem transportFrom_inside {accumulated start stop : Int} (fitting : Fitting length cursor edits)
    (shift : 0 ≤ accumulated + cursor) (nonnegative : 0 ≤ start)
    (inside : stop ≤ length + accumulated) :
    0 ≤ (transportFrom accumulated start stop edits).1 ∧
      (transportFrom accumulated start stop edits).2 ≤
        length + accumulated + totalDelta edits := by
  induction edits generalizing cursor accumulated start stop with
  | nil =>
    simp only [transportFrom, totalDelta, map_nil, sum_nil]
    omega
  | cons edit edits ih =>
    obtain ⟨after, ordered, within, rest⟩ := fitting
    have delta : edit.delta = edit.insert.length - (edit.stop - edit.start : Int) := rfl
    have total := totalDelta_cons edit edits
    have shifted : 0 ≤ accumulated + edit.delta + edit.stop := by omega
    have moved {start stop : Int} (nonnegative : 0 ≤ start)
        (inside : stop ≤ length + (accumulated + edit.delta)) :
        0 ≤ (transportFrom (accumulated + edit.delta) start stop edits).1 ∧
          (transportFrom (accumulated + edit.delta) start stop edits).2 ≤
            length + accumulated + totalDelta (edit :: edits) := by
      have there := ih rest shifted nonnegative inside
      omega
    rw [transportFrom]
    split_ifs <;> exact moved (by omega) (by omega)

theorem checkAnnotations_ok {annotations : List Annotation} :
    checkAnnotations length annotations = .ok () ↔
      ∀ mark ∈ annotations, checkAnnotationSpan length mark = .ok () := by
  induction annotations with
  | nil => simp [checkAnnotations]
  | cons mark annotations ih =>
    rw [checkAnnotations, unit_bind_ok, ih]
    simp

theorem checkRecords_ok {entries : List (Sigma fun _ : String => Record)} :
    checkRecords entries = .ok () ↔ ∀ entry ∈ entries, checkRecord entry.1 entry.2 = .ok () := by
  induction entries with
  | nil => simp [checkRecords]
  | cons entry entries ih =>
    rw [checkRecords, unit_bind_ok, ih]
    simp

theorem isSourceHash_identity (source : Bytes) : isSourceHash (digest.identity source) = true := by
  have letters : (digest.identity source).toList = "sha256:".toList ++ (digest.hex source).toList := by
    rw [Digest.identity, String.toList_append]
  have size : (digest.identity source).length = 71 := by
    rw [Digest.identity, String.length_append, digest.length_hex]
    rfl
  have digits := digest.hex_digits source
  rw [isSourceHash, letters, size, drop_left' (by rfl), digits]
  simp

theorem isRetained_file (folder suffix : String) (revision : Nat) (token : Token)
    (folder_ne : folder ≠ ".." ∧ folder ≠ "/") :
    isRetained [folder, toString revision ++ "-" ++ token.text ++ suffix] = true := by
  have long : toString revision ++ "-" ++ token.text ++ suffix ≠ ".." := by
    intro same
    have size := congrArg String.length same
    simp only [String.length_append, token.length_eq] at size
    have two : "..".length = 2 := rfl
    omega
  generalize toString revision ++ "-" ++ token.text ++ suffix = file at long
  simp [isRetained, folder_ne.2, Ne.symm folder_ne.1, Ne.symm long]

theorem Issued.checkRecord {generation : String} {revision : Nat}
    (issued : Issued digest host state generation record revision source token)
    (document : state.document.id ≠ "") : checkRecord generation record = .ok () := by
  have name := generationName_ne revision token
  have request : loadRequest record.request = .ok record.request := by
    rw [issued.request]
    simp only [loadRequest, require_bind_ok, pure_ok_iff, and_true]
    exact ⟨bne_iff_ne.mpr name, bne_iff_ne.mpr document, isSourceHash_identity source,
      by simp [requestOf]⟩
  rw [Rainfall.checkRecord, request, ok_bind]
  simp only [require_bind_ok, require_ok]
  refine ⟨?_, ?_, ?_⟩
  · rw [issued.request, issued.name]
    exact beq_self_eq_true _
  · rw [issued.sourceFile]
    exact isRetained_file "sources" ".fine" revision token (by decide)
  · rw [issued.requestFile]
    exact isRetained_file "requests" ".json" revision token (by decide)

/-- The annotations of a state stand in what it displays. -/
def State.Placed (state : State) : Prop :=
  ∀ mark ∈ state.annotations,
    checkAnnotationSpan (Utf8.encode state.displaySource).length mark = .ok ()

theorem Indexed.checkState (indexed : Indexed digest host state) (placed : state.Placed) :
    checkState digest state = .ok () := by
  obtain ⟨current, current_eq, request⟩ := indexed.current
  simp only [Rainfall.checkState, unit_bind_ok, require_ok, checkAnnotations_ok, checkRecords_ok]
  refine ⟨beq_iff_eq.mpr indexed.identity, by rw [current_eq]; rfl, ?_, ?_, placed⟩
  · intro entry member
    obtain ⟨revision, source, token, issued⟩ :=
      indexed.issued entry.1 entry.2 (AList.mem_lookup_iff.mpr member)
    exact issued.checkRecord indexed.document
  · rw [current_eq, Option.map_some, request]
    exact beq_self_eq_true _

theorem Loaded.placed (loaded : Loaded digest host state) : state.Placed := by
  have checked := loaded.checked
  simp only [checkState, unit_bind_ok] at checked
  exact checkAnnotations_ok.mp checked.2.2.2.2

theorem checkAnnotationSpan_placed {span : Span} (placed : mark.status ≠ .unplaced)
    (span_eq : mark.displaySpan = some span)
    (inside : 0 ≤ span.start.offset ∧ span.start.offset < span.stop.offset ∧
      span.stop.offset ≤ length) : checkAnnotationSpan length mark = .ok () := by
  have check : (require (decide (0 ≤ span.start.offset ∧ span.start.offset < span.stop.offset ∧
      span.stop.offset ≤ length)) "host annotation span is outside the display") = .ok () :=
    require_ok.mpr (decide_eq_true inside)
  rw [checkAnnotationSpan, span_eq]
  cases status : mark.status with
  | unplaced => exact absurd status placed
  | current | transported => exact check

/-- An edit moves an annotation within the source. -/
theorem checkAnnotationSpan_transport (fitting : Fitting source.length 0 edits)
    (checked : checkAnnotationSpan source.length mark = .ok ()) :
    checkAnnotationSpan (applyEdits source edits).length
      (transportAnnotationSpan (applyEdits source edits) edits mark) = .ok () := by
  rw [transportAnnotationSpan]
  cases span_eq : mark.displaySpan with
  | none => rfl
  | some span =>
    cases moved : transportRange span.start.offset span.stop.offset edits with
    | none =>
      simp only [moved]
      rfl
    | some mapped =>
      simp only [moved]
      have inside : 0 ≤ span.start.offset ∧ span.start.offset < span.stop.offset ∧
          span.stop.offset ≤ source.length := by
        rw [checkAnnotationSpan, span_eq] at checked
        cases status : mark.status with
        | unplaced =>
          rw [status] at checked
          cases checked
        | current | transported =>
          rw [status] at checked
          exact of_decide_eq_true (require_ok.mp checked)
      have bounds := transportFrom_inside fitting (by omega : (0 : Int) ≤ 0 + (0 : Nat)) inside.1
        (by omega : span.stop.offset ≤ source.length + 0)
      have size := length_applyFrom fitting (Nat.zero_le _)
      simp only [transportRange] at moved
      split_ifs at moved with empty
      cases moved
      refine checkAnnotationSpan_placed (by simp) rfl ⟨bounds.1, not_le.mp empty, ?_⟩
      show (transportFrom 0 span.start.offset span.stop.offset edits).2 ≤
        ((applyFrom source 0 edits).length : Int)
      rw [size]
      have last := bounds.2
      omega

/-- The source nodes that a replay has evidence for have bytes. -/
def NonemptySpans (events : List Json) : Prop :=
  ∀ event ∈ named "source.term.evidence" events,
    (offset (edgeSpan (declared "source.node.declare" events) event) "begin").integer <
      (offset (edgeSpan (declared "source.node.declare" events) event) "end").integer

theorem project_placed {events : List Json} {projection : Projection} {displayed : Bytes}
    (accepted : ReplayAccepted digest source events) (nonempty : NonemptySpans events)
    (run : project digest source events [] = .ok (projection, displayed)) :
    ∀ mark ∈ projection.annotations,
      checkAnnotationSpan source.length mark = .ok () := by
  obtain ⟨objects, assertions, lemmas, found, all⟩ := project_annotations run
  obtain ⟨document, snapshot, objects_eq, _⟩ := accepted.catalog
  cases objects_eq.symm.trans found
  intro mark member
  obtain ⟨event, event_mem, made⟩ := Fallible.exists_of_forall₂_right all member
  obtain ⟨_, known, placed⟩ := annotation_claim made
  obtain ⟨_, node⟩ := accepted.node (Json.isIn_iff.mp known).2
  have wide := nonempty event event_mem
  rw [accepted.declared_nodes] at wide
  obtain ⟨status, span⟩ := Prod.mk.inj placed
  refine checkAnnotationSpan_placed (by rw [status]; simp) span ⟨?_, wide, ?_⟩
  · exact node.inside.1
  · exact node.inside.2.2

/-- Completions hand in evidence at places that are not empty. -/
def NonemptyEvidence (calls : List Call) : Prop :=
  ∀ pending, .finish pending ∈ calls → NonemptySpans pending.events

theorem Advances.placed (advances : Advances digest host later old value edits token)
    (stored : later.state = some state) : state.Placed := by
  obtain ⟨text, previous, decoded, _, _, _, rfl⟩ := advances.advanced
  cases stored
  intro mark member
  obtain ⟨earlier, there, rfl⟩ := mem_map.mp member
  have bytes := Utf8.encode_of_decode decoded
  show checkAnnotationSpan (Utf8.encode text).length _ = .ok ()
  rw [bytes]
  exact checkAnnotationSpan_transport (loadEdits_fitting advances.edits_eq)
    (advances.loaded.placed earlier there)

/-- A completion with such evidence leaves annotations placed. -/
theorem Finishes.placed {pending : Pending} {current : Record} {admission : Admission}
    (finishes : Finishes digest host later old pending record current admission)
    (spans : NonemptySpans pending.events) (stored : later.state = some state) : state.Placed := by
  obtain ⟨_, _, _, rfl⟩ := finishes.kept
  cases stored
  cases admission with
  | admitted generation snapshot projection =>
    obtain ⟨_, admitted⟩ := admit_admitted finishes.admitted
    obtain ⟨_, checked⟩ := admitted.checked
    obtain ⟨displayed, projected⟩ := admitted.projected
    have display := congrArg Identity.byteLength admitted.display
    have size := Json.isNumber_unique admitted.byteLength checked.byteLength
    have same : (Utf8.encode old.displaySource).length = pending.candidateSource.length := by
      rw [← display] at size
      exact Int.ofNat.inj size
    show ∀ mark ∈ projection.annotations,
      checkAnnotationSpan (Utf8.encode old.displaySource).length mark = .ok ()
    rw [same]
    exact project_placed admitted.accepted spans projected
  | discarded => exact finishes.loaded.placed

/-- If the evidence of completed traces is not empty, annotations that are kept are placed. -/
theorem Reaches.placed {calls : List Call} {system : System} (nonempty : NonemptyEvidence calls)
    (reached : Reaches digest read System.empty calls system)
    (stored : system.host.state = some state) : state.Placed := by
  induction reached generalizing state with
  | start => cases stored
  | step before call allowed ih =>
    rename_i middle calls
    have earlier : NonemptyEvidence calls :=
      fun pending member => nonempty pending (mem_append_left _ member)
    rcases next_cases middle call with commits | ⟨_, same⟩
    · generalize middle.next digest read call = next at commits stored
      cases commits with
      | opened opens =>
        obtain ⟨first, first_eq, _, none, _⟩ := opens.indexed
        cases first_eq.symm.trans stored
        intro mark member
        rw [none] at member
        cases member
      | advanced advances | materialized advances => exact advances.placed stored
      | began begins generation_eq trace_eq => exact ih earlier stored
      | finished finishes =>
        exact finishes.placed (nonempty _ (mem_append_right _ (mem_singleton_self _))) stored
      | failed fails =>
        obtain rfl := fails.later_eq
        cases stored
        exact fails.loaded.placed
    · rw [same] at stored
      exact ih earlier stored

/-- If the evidence of every completed trace stands at places that are not empty, the state that was
saved last is read back as it was saved. -/
theorem saved_state_loads {calls : List Call} {system : System} {state : State}
    (nonempty : NonemptyEvidence calls) (reached : Reaches digest read System.empty calls system)
    (stored : system.host.state = some state) : loadState digest system.host = .ok state :=
  loadState_ok.mpr ⟨stored, (reached.indexed state stored).checkState
    (reached.placed nonempty stored)⟩

theorem samplePending_spans : NonemptySpans (samplePending (sampleBegun 0)).events := by
  have evaluated : (named "source.term.evidence" (samplePending (sampleBegun 0)).events).all
      (fun event => decide ((offset (edgeSpan (declared "source.node.declare"
        (samplePending (sampleBegun 0)).events) event) "begin").integer <
        (offset (edgeSpan (declared "source.node.declare"
          (samplePending (sampleBegun 0)).events) event) "end").integer)) = true := by
    decide +kernel
  exact fun event there => of_decide_eq_true (all_eq_true.mp evaluated event there)

/-- The state after a small completion is read back. -/
theorem saved_state_loads_sample : NonemptyEvidence (sampleCalls 0) ∧
    ∃ state, (sampleDone 0).host.state = some state ∧
      loadState Digest.sample (sampleDone 0).host = .ok state := by
  obtain ⟨state, stored, _⟩ := sampleDone_shows
  have nonempty : NonemptyEvidence (sampleCalls 0) := by
    intro pending member
    have same : pending = samplePending (sampleBegun 0) := by
      simpa [sampleCalls, sampleOpen] using member
    rw [same]
    exact samplePending_spans
  exact ⟨nonempty, state, stored,
    saved_state_loads nonempty (reaches_sampleDone (by decide +kernel)) stored⟩

/-- Evidence at no byte at all is saved, and then refused by every section. -/
theorem saved_state_refused : ∃ calls system state,
    Reaches Digest.sample (sampleReader 0 3) System.empty calls system ∧
      system.host.state = some state ∧
      loadState Digest.sample system.host =
        .error "host annotation span is outside the display" := by
  have reached := reaches_sampleDone (show (sampleBegun 3).pending.length = 1 by decide +kernel)
  have evaluated : ((sampleDone 3).host.state.isSome &&
      match loadState Digest.sample (sampleDone 3).host with
      | .ok _ => false
      | .error message => message == "host annotation span is outside the display") = true := by
    decide +kernel
  obtain ⟨some_state, refused⟩ := Bool.and_eq_true_iff.mp evaluated
  obtain ⟨state, stored⟩ := Option.isSome_iff_exists.mp some_state
  refine ⟨_, _, state, reached, stored, ?_⟩
  cases run : loadState Digest.sample (sampleDone 3).host with
  | ok _ =>
    rw [run] at refused
    cases refused
  | error message =>
    rw [run] at refused
    rw [beq_iff_eq.mp refused]

end Fine.Rainfall
