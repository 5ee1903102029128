import Fine.Rainfall.Reload

/-!
# Live edits

`replace_source` reads a source and commits one edit in two locked sections; other clients may
commit between them.
-/

namespace Fine.Rainfall

open List

variable {digest : Digest} {read : Bytes → Except String (List Json)}

/-- How many letters two texts begin with in common. -/
def commonFront : List Char → List Char → Nat
  | first :: rest, second :: others => if first = second then commonFront rest others + 1 else 0
  | _, _ => 0

/-- One byte edit of exactly the changed middle. -/
def minimalEdit (old new : String) : List Json :=
  if old = new then []
  else
    let front := commonFront old.toList new.toList
    let back := commonFront (old.toList.drop front).reverse (new.toList.drop front).reverse
    let oldEnd := old.toList.length - back
    let newEnd := new.toList.length - back
    [.object [
      ("from", .int (Utf8.encode (String.ofList (old.toList.take front))).length),
      ("to", .int (Utf8.encode (String.ofList (old.toList.take oldEnd))).length),
      ("insert", .text (String.ofList ((new.toList.take newEnd).drop front)))]]

def maxSourceBytes : Nat := 2 * 1024 * 1024

/-- A `replace_source` between its sections: what was sent, and displayed. -/
structure Replacement where
  source : String
  base : String

/-- First section of `replace_source`. -/
def beginReplacement (digest : Digest) (source : String) (host : Host) :
    Except String Replacement := do
  require (decide ((Utf8.encode source).length ≤ maxSourceBytes))
    ("source exceeds " ++ toString maxSourceBytes ++ " bytes")
  let state ← loadState digest host
  return ⟨source, state.displaySource⟩

/-- Second section of `replace_source`, with the generation it commits. -/
def finishReplacement (digest : Digest) (replacement : Replacement) (token : Token) (host : Host) :
    Except String (Host × Option Action) :=
  match minimalEdit replacement.base replacement.source with
  | [] => pure (host, none)
  | edits => do
    let (host, action) ← advance digest (.array edits) token host
    return (host, some action)

/-- The host with replacements that are under way. -/
structure LiveSystem where
  system : System
  replacements : List Replacement

/-- One locked section of some client or of some editor. -/
inductive LiveCall where
  | client (call : Call)
  | begin_ (source : String)
  | finish (replacement : Replacement) (token : Token)

section Calls

variable (digest : Digest) (read : Bytes → Except String (List Json))

def LiveSystem.next (live : LiveSystem) : LiveCall → LiveSystem
  | .client call => { live with system := live.system.next digest read call }
  | .begin_ source =>
    match beginReplacement digest source live.system.host with
    | .ok replacement => { live with replacements := replacement :: live.replacements }
    | .error _ => live
  | .finish replacement token =>
    match finishReplacement digest replacement token live.system.host with
    | .ok (host, _) => { live with system := { live.system with host := host } }
    | .error _ => live

/-- A section is run with what the one before it left. -/
def LiveSystem.allows (live : LiveSystem) : LiveCall → Prop
  | .client call => live.system.allows call
  | .begin_ _ => True
  | .finish replacement _ => replacement ∈ live.replacements

/-- Interleavings of any number of clients and editors. -/
inductive LiveReaches : List LiveCall → LiveSystem → Prop where
  | start : LiveReaches [] ⟨System.empty, []⟩
  | step {calls : List LiveCall} {live : LiveSystem} (reached : LiveReaches calls live)
    (call : LiveCall) (allowed : live.allows call) :
    LiveReaches (calls ++ [call]) (live.next digest read call)

end Calls

theorem take_commonFront (old new : List Char) :
    old.take (commonFront old new) = new.take (commonFront old new) := by
  fun_induction commonFront old new with
  | case1 rest first others ih => simp [ih]
  | case2 => rfl
  | case3 => rfl

theorem commonFront_le (old new : List Char) :
    commonFront old new ≤ old.length ∧ commonFront old new ≤ new.length := by
  fun_induction commonFront old new with
  | case1 rest first others ih => simp only [length_cons]; omega
  | case2 => simp
  | case3 => simp

theorem drop_commonBack (old new : List Char) :
    old.drop (old.length - commonFront old.reverse new.reverse) =
      new.drop (new.length - commonFront old.reverse new.reverse) := by
  have same := congrArg List.reverse (take_commonFront old.reverse new.reverse)
  rwa [reverse_take, reverse_take, reverse_reverse, reverse_reverse,
    length_reverse, length_reverse] at same

theorem minimalEdit_parts (old new : List Char) :
    ∃ front middle other back, old = front ++ middle ++ back ∧ new = front ++ other ++ back ∧
      front.length = commonFront old new ∧
      back.length = commonFront (old.drop (commonFront old new)).reverse
        (new.drop (commonFront old new)).reverse := by
  set count := commonFront old new with count_eq
  set behind := commonFront (old.drop count).reverse (new.drop count).reverse with behind_eq
  have bounds := commonFront_le old new
  have fronts := take_commonFront old new
  have backs := drop_commonBack (old.drop count) (new.drop count)
  have behind_le := commonFront_le (old.drop count).reverse (new.drop count).reverse
  rw [← count_eq] at bounds fronts
  rw [← behind_eq] at backs behind_le
  rw [length_reverse, length_reverse] at behind_le
  refine ⟨old.take count, (old.drop count).take ((old.drop count).length - behind),
    (new.drop count).take ((new.drop count).length - behind),
    (old.drop count).drop ((old.drop count).length - behind), ?_, ?_, ?_, ?_⟩
  · rw [append_assoc, take_append_drop, take_append_drop]
  · rw [backs, fronts, append_assoc, take_append_drop, take_append_drop]
  · rw [length_take, Nat.min_eq_left bounds.1]
  · rw [length_drop]
    omega

theorem applyEdits_middle (front middle other back : List Char) :
    applyEdits (Utf8.encode (String.ofList (front ++ middle ++ back)))
      [⟨(Utf8.encode (String.ofList front)).length,
        (Utf8.encode (String.ofList (front ++ middle))).length,
        Utf8.encode (String.ofList other), String.ofList other⟩] =
      Utf8.encode (String.ofList (front ++ other ++ back)) := by
  simp only [applyEdits, applyFrom, drop_zero, Utf8.encode_append]
  rw [drop_left, append_assoc (Utf8.encode (String.ofList front)), take_left]

theorem loadEdits_single {start stop length : Nat} {insert : String} (ordered : start ≤ stop)
    (within : stop ≤ length) :
    loadEdits (.array [.object [("from", .int start), ("to", .int stop),
      ("insert", .text insert)]]) length = .ok [⟨start, stop, Utf8.encode insert, insert⟩] := by
  rw [loadEdits, require_bind_ok]
  refine ⟨rfl, require_bind_ok.mpr ⟨rfl, ?_⟩⟩
  show loadEditsFrom length 0 (-1) 0 [_] = _
  simp only [loadEditsFrom, require_bind_ok]
  refine ⟨rfl, rfl, rfl, rfl, rfl, ?_, ?_, ?_, rfl⟩
  · simpa [Json.get, Json.integer, List.lookup] using ⟨ordered, within⟩
  · simp [Json.get, Json.integer, List.lookup]
  · simp

variable {old new : String}

/-- The edit replaces the middle that differs. -/
theorem minimalEdit_loads (differ : old ≠ new) :
    ∃ front middle other back, old.toList = front ++ middle ++ back ∧
      new.toList = front ++ other ++ back ∧ front.length = commonFront old.toList new.toList ∧
      back.length = commonFront (old.toList.drop front.length).reverse
        (new.toList.drop front.length).reverse ∧
      loadEdits (.array (minimalEdit old new)) (Utf8.encode old).length =
        .ok [⟨(Utf8.encode (String.ofList front)).length,
          (Utf8.encode (String.ofList (front ++ middle))).length,
          Utf8.encode (String.ofList other), String.ofList other⟩] := by
  obtain ⟨front, middle, other, back, old_eq, new_eq, front_eq, back_eq⟩ :=
    minimalEdit_parts old.toList new.toList
  have bytes : Utf8.encode old = Utf8.encode (String.ofList front) ++
      Utf8.encode (String.ofList middle) ++ Utf8.encode (String.ofList back) := by
    rw [← Utf8.encode_append, ← Utf8.encode_append, ← old_eq, String.ofList_toList]
  have start : old.toList.take front.length = front := by
    rw [old_eq, append_assoc, take_left]
  have oldEnd : old.toList.take (old.toList.length - back.length) = front ++ middle := by
    rw [old_eq, length_append, Nat.add_sub_cancel, take_left]
  have newEnd : (new.toList.take (new.toList.length - back.length)).drop front.length = other := by
    rw [new_eq, length_append, Nat.add_sub_cancel, take_left, drop_left]
  rw [← front_eq] at back_eq
  refine ⟨front, middle, other, back, old_eq, new_eq, front_eq, back_eq, ?_⟩
  rw [minimalEdit, if_neg differ]
  simp only [← front_eq, ← back_eq]
  rw [start, oldEnd, newEnd, loadEdits_single]
  · rw [Utf8.encode_append, length_append]
    omega
  · rw [bytes, Utf8.encode_append]
    simp

theorem minimalEdit_apply {edits : List Edit} (differ : old ≠ new)
    (run : loadEdits (.array (minimalEdit old new)) (Utf8.encode old).length = .ok edits) :
    applyEdits (Utf8.encode old) edits = Utf8.encode new := by
  obtain ⟨front, middle, other, back, old_eq, new_eq, -, -, loads⟩ := minimalEdit_loads differ
  rw [loads] at run
  cases run
  have whole := applyEdits_middle front middle other back
  rwa [← old_eq, ← new_eq, String.ofList_toList, String.ofList_toList] at whole

theorem le_commonFront (front old new : List Char) :
    front.length ≤ commonFront (front ++ old) (front ++ new) := by
  induction front with
  | nil => exact Nat.zero_le _
  | cons letter front ih => simpa [commonFront] using ih

/-- No replacement deletes fewer letters than the one between the longest common ends. -/
theorem middle_le {old new front middle back : List Char}
    (front_eq : front.length = commonFront old new)
    (back_eq : back.length = commonFront (old.drop front.length).reverse
      (new.drop front.length).reverse)
    (old_eq : old = front ++ middle ++ back) {before deleted inserted behind : List Char}
    (split : old = before ++ deleted ++ behind) (split' : new = before ++ inserted ++ behind) :
    middle.length ≤ deleted.length := by
  have first : before.length ≤ front.length := by
    rw [front_eq, split, split', append_assoc, append_assoc]
    exact le_commonFront before _ _
  -- the part of what follows that lies behind the common front of both
  let count := min behind.length (min (old.length - front.length) (new.length - front.length))
  have ends : ∀ {text part}, text = before ++ part ++ behind → count ≤ text.length - front.length →
      front.length ≤ text.length → ∃ rest, (text.drop front.length).reverse =
        (behind.drop (behind.length - count)).reverse ++ rest := by
    intro text part text_eq room inside
    have long : text.length = before.length + (part.length + behind.length) := by simp [text_eq]
    have cut : text = before ++ part ++ behind.take (behind.length - count) ++
        behind.drop (behind.length - count) := by
      rw [append_assoc _ (behind.take _), take_append_drop, text_eq]
    refine ⟨((before ++ part ++ behind.take (behind.length - count)).drop front.length).reverse, ?_⟩
    have short : count ≤ behind.length := Nat.min_le_left ..
    rw [← reverse_append, ← drop_append_of_le_length, ← cut]
    simp only [length_append, length_take]
    omega
  have bounds := commonFront_le old new
  obtain ⟨rest, one⟩ := ends split (by omega) (by omega)
  obtain ⟨rest', two⟩ := ends split' (by omega) (by omega)
  have second := le_commonFront (behind.drop (behind.length - count)).reverse rest rest'
  rw [← one, ← two, ← back_eq, length_reverse, length_drop] at second
  have long := congrArg List.length old_eq
  have lengths := congrArg List.length split
  have lengths' := congrArg List.length split'
  simp only [length_append] at long lengths lengths'
  omega

/-- The edit between two texts is empty just if they are one. Otherwise it is accepted, its ends lie
between letters, it gives the new text, and no replacement of one part that does deletes fewer
letters. -/
theorem minimalEdit_minimal (old new : String) :
    (minimalEdit old new = [] ↔ old = new) ∧
      (old = new ∨ ∃ front middle back other edit, old = String.ofList (front ++ middle ++ back) ∧
        loadEdits (.array (minimalEdit old new)) (Utf8.encode old).length = .ok [edit] ∧
        applyEdits (Utf8.encode old) [edit] = Utf8.encode new ∧
        edit = ⟨(Utf8.encode (String.ofList front)).length,
          (Utf8.encode (String.ofList (front ++ middle))).length,
          Utf8.encode (String.ofList other), String.ofList other⟩ ∧
        ∀ before deleted inserted behind : List Char,
          old = String.ofList (before ++ deleted ++ behind) →
          new = String.ofList (before ++ inserted ++ behind) →
          middle.length ≤ deleted.length) := by
  by_cases same : old = new
  · exact ⟨iff_of_true (if_pos same) same, .inl same⟩
  · refine ⟨iff_of_false (by rw [minimalEdit, if_neg same]; exact cons_ne_nil _ _) same, .inr ?_⟩
    obtain ⟨front, middle, other, back, old_eq, -, front_eq, back_eq, loads⟩ :=
      minimalEdit_loads same
    refine ⟨front, middle, back, other, _, ?_, loads, minimalEdit_apply same loads, rfl, ?_⟩
    · rw [← old_eq, String.ofList_toList]
    · intro before deleted inserted behind split split'
      exact middle_le front_eq back_eq old_eq (by rw [split, String.toList_ofList])
        (by rw [split', String.toList_ofList])

/-- What the editor sent is displayed, and is the source of the new generation. -/
structure CommitsSource (later : Host) (action : Action) (source : String) : Prop where
  displayed : ∃ state, later.state = some state ∧ state.displaySource = source ∧
    state.currentGeneration = action.generation
  artifact : later.files.lookup action.source = some (.bytes (Utf8.encode source))

/-- A replacement of what is displayed commits what was sent. -/
theorem finishReplacement_commits {replacement : Replacement} {token : Token} {host later : Host}
    {action : Action}
    (unchanged : ∀ state, host.state = some state → state.displaySource = replacement.base)
    (run : finishReplacement digest replacement token host = .ok (later, some action)) :
    CommitsSource later action replacement.source := by
  have differ : replacement.base ≠ replacement.source := by
    intro same
    rw [finishReplacement, minimalEdit, if_pos same] at run
    cases run
  have single : ∃ edit, minimalEdit replacement.base replacement.source = [edit] := by
    rw [minimalEdit, if_neg differ]
    exact ⟨_, rfl⟩
  obtain ⟨edit, edit_eq⟩ := single
  rw [finishReplacement, edit_eq] at run
  obtain ⟨⟨middle, made⟩, advanced, same⟩ := bind_ok_iff.mp run
  cases pure_ok_iff.mp same
  rw [← edit_eq] at advanced
  simp only [advance, bind_ok_iff] at advanced
  obtain ⟨state, loaded, edits, edits_eq, advanced⟩ := advanced
  have base := unchanged state (loadState_ok.mp loaded).stored
  rw [base] at edits_eq
  have bytes := minimalEdit_apply differ edits_eq
  obtain ⟨advances, shown, shown_eq, launch⟩ :=
    advanceLocked_ok (loadState_ok.mp loaded) (base ▸ edits_eq) advanced
  obtain ⟨text, previous, decoded, _, _, _, rfl⟩ := advances.advanced
  cases shown_eq
  rw [base, bytes] at decoded
  have text_eq : replacement.source = text := by
    rw [Utf8.decode_encode] at decoded
    exact Option.some.inj decoded
  have found := AList.lookup_insert (a := generationName (state.displaySnapshot.revision + 1) token)
    (b := recordOf digest state.document.id (state.displaySnapshot.revision + 1)
      (applyEdits (Utf8.encode state.displaySource) edits) token)
    (state.generations.insert state.currentGeneration (supersede previous))
  have told := launch
  simp only [launchDescription, State.issue, State.advance, sourceIdentity, found] at told
  cases pure_ok_iff.mp told
  refine ⟨⟨_, rfl, text_eq.symm, rfl⟩, ?_⟩
  rw [← bytes, ← base]
  exact Host.issue_source

/-- Nothing else is displayed between the two sections. -/
def Unraced (digest : Digest) (read : Bytes → Except String (List Json)) (calls : List LiveCall) :
    Prop :=
  ∀ before replacement token after middle, calls = before ++ .finish replacement token :: after →
    LiveReaches digest read before middle → ∀ state, middle.system.host.state = some state →
      state.displaySource = replacement.base

/-- Where nothing else is displayed between the two sections of a replacement, one that answers with
a new generation has committed what it was sent. -/
theorem live_edits_commit {calls before after : List LiveCall} {replacement : Replacement}
    {token : Token} {middle : LiveSystem} {later : Host} {action : Action}
    (unraced : Unraced digest read calls)
    (split : calls = before ++ .finish replacement token :: after)
    (reached : LiveReaches digest read before middle)
    (run : finishReplacement digest replacement token middle.system.host =
      .ok (later, some action)) : CommitsSource later action replacement.source :=
  finishReplacement_commits (unraced before replacement token after middle split reached) run

theorem LiveReaches.foldl_eq {calls : List LiveCall} {live : LiveSystem}
    (reached : LiveReaches digest read calls live) :
    calls.foldl (LiveSystem.next digest read) ⟨System.empty, []⟩ = live := by
  induction reached with
  | start => rfl
  | step _ call _ ih =>
    rw [foldl_append, ih]
    rfl

/-- An editor that has read the source of a small host. -/
def sampleReading : LiveSystem :=
  (LiveSystem.next Digest.sample (sampleReader 0 0) ⟨System.empty, []⟩ (.client sampleOpen)).next
    Digest.sample (sampleReader 0 0) (.begin_ "x=12")

theorem reaches_sampleReading : LiveReaches Digest.sample (sampleReader 0 0)
    [.client sampleOpen, .begin_ "x=12"] sampleReading :=
  (LiveReaches.start.step (.client sampleOpen) trivial).step (.begin_ "x=12") trivial

/-- The replacement that the editor is in the middle of. -/
def sampleReplacement : Replacement := ⟨"x=12", "x=1"⟩

/-- A replacement that succeeds and displays a source. -/
def displays (run : Except String (Host × Option Action)) (source : String) : Bool :=
  match run with
  | .ok (host, some _) => (host.state.map State.displaySource) == some source
  | _ => false

theorem exists_of_displays {run : Except String (Host × Option Action)} {source : String}
    (shown : displays run source = true) : ∃ later action state, run = .ok (later, some action) ∧
      later.state = some state ∧ state.displaySource = source := by
  unfold displays at shown
  split at shown
  · next host action =>
    obtain ⟨state, stored, same⟩ := Option.map_eq_some_iff.mp (beq_iff_eq.mp shown)
    exact ⟨host, action, state, rfl, stored, same⟩
  · cases shown

/-- An editor that nobody disturbs commits what it sent. -/
theorem live_edits_commit_sample :
    Unraced Digest.sample (sampleReader 0 0)
      [.client sampleOpen, .begin_ "x=12", .finish sampleReplacement .sample] ∧
    ∃ later action, finishReplacement Digest.sample sampleReplacement .sample
        sampleReading.system.host = .ok (later, some action) ∧
      CommitsSource later action "x=12" := by
  have unraced : Unraced Digest.sample (sampleReader 0 0)
      [.client sampleOpen, .begin_ "x=12", .finish sampleReplacement .sample] := by
    intro before replacement token after middle split reached state stored
    have evaluated : (sampleReading.system.host.state.map State.displaySource) = some "x=1" := by
      decide +kernel
    rcases before with _ | ⟨first, _ | ⟨second, _ | ⟨third, rest⟩⟩⟩
    · cases (List.cons.inj split).1
    · cases (List.cons.inj (List.cons.inj split).2).1
    · simp only [cons_append, nil_append, List.cons.injEq] at split
      obtain ⟨rfl, rfl, same, _⟩ := split
      obtain ⟨rfl, _⟩ := LiveCall.finish.inj same
      have there : middle = sampleReading := reached.foldl_eq.symm
      rw [there] at stored
      rw [stored] at evaluated
      exact Option.some.inj evaluated
    · have sizes := congrArg List.length split
      simp at sizes
  obtain ⟨later, action, _, run, _⟩ := exists_of_displays
    (show displays (finishReplacement Digest.sample sampleReplacement .sample
      sampleReading.system.host) "x=12" = true by decide +kernel)
  have split : [.client sampleOpen, .begin_ "x=12", .finish sampleReplacement .sample] =
      [.client sampleOpen, .begin_ "x=12"] ++ LiveCall.finish sampleReplacement .sample :: [] := rfl
  exact ⟨unraced, later, action, run, live_edits_commit unraced split reaches_sampleReading run⟩

/-- An editor reads `x=1` and sends `x=12`; another client puts a letter in front. The editor is
answered with a new generation of `zx=21`. -/
theorem live_edit_raced : ∃ calls live later action state,
    LiveReaches Digest.sample (sampleReader 0 0) calls live ∧
      sampleReplacement ∈ live.replacements ∧
      finishReplacement Digest.sample sampleReplacement .sample live.system.host =
        .ok (later, some action) ∧
      later.state = some state ∧ state.displaySource = "zx=21" ∧
      state.displaySource ≠ sampleReplacement.source := by
  have member : sampleReplacement ∈ (sampleReading.next Digest.sample (sampleReader 0 0)
      (.client (sampleEdit 0 0 "z"))).replacements := by
    have evaluated : ((sampleReading.next Digest.sample (sampleReader 0 0)
        (.client (sampleEdit 0 0 "z"))).replacements.map fun replacement =>
          (replacement.source, replacement.base)) = [("x=12", "x=1")] := by decide +kernel
    obtain ⟨replacement, there, same⟩ := mem_map.mp (evaluated ▸ mem_singleton_self ("x=12", "x=1"))
    obtain ⟨source, base⟩ := Prod.mk.inj same
    have found : replacement = sampleReplacement := by
      cases replacement
      cases source
      cases base
      rfl
    exact found ▸ there
  obtain ⟨later, action, state, run, stored, shown⟩ := exists_of_displays
    (show displays (finishReplacement Digest.sample sampleReplacement .sample
      (sampleReading.next Digest.sample (sampleReader 0 0)
        (.client (sampleEdit 0 0 "z"))).system.host) "zx=21" = true by decide +kernel)
  refine ⟨_, _, later, action, state,
    reaches_sampleReading.step (.client (sampleEdit 0 0 "z")) trivial, member, run, stored, shown, ?_⟩
  rw [shown]
  decide

end Fine.Rainfall
