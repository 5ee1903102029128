import Mathlib
import Fine.Library.Effects

/-!
# Accepted instances and the clauses made of them

The quantifier observer leaves accepted instances pending under the handles of quantifier and ground
body, and the clause observer takes the one that an `inst` hint names. A callback that throws keeps
what it recorded.
-/

namespace Fine.Rainfall.Observers

open Fine.Effects
open Fine.Effects.Effectful (look effect)

/-- What is asked of the solver's terms. -/
structure Terms (A : Type) where
  /-- Name of the declaration that a term applies. -/
  name : A → String
  args : A → List A
  isApp : A → Bool
  isNot : A → Bool
  /-- Label of a quantifier, if it has one. -/
  qid : A → Option String
  lift : A → Except String String

/-- What a clause says of its accepted instance. -/
structure Join where
  event : Nat
  quantifier : Nat
  body : Nat
  /-- Handles of the ground terms bound. -/
  bindings : List Nat

/-- A recorded clause. -/
structure Clause where
  /-- Operation, kind and action, by the head of the hint. -/
  labels : String × String × String
  hint : Nat
  hintHead : String
  literals : List Nat
  /-- Indices of the clauses it depends on. -/
  dependencies : List Nat
  join : Option Join

/-- A recorded event. -/
inductive Event where
  /-- A term and its handle, text and origin. -/
  | term (handle : Nat) (text origin : String)
  /-- An accepted instance: operation, quantifier, ground body, source role and engine. -/
  | accepted (operation : String) (quantifier body : Nat) (role engine : String)
  | clause (clause : Clause)
  | other (operation : String)

/-- The accepted instance that an event refers to. -/
def Event.joined : Event → Option Nat
  | .clause added => added.join.map Join.event
  | _ => none

/-- Neither an accepted instance nor a clause. -/
def Event.plain : Event → Bool
  | .term .. | .other .. => true
  | .accepted .. | .clause _ => false

/-- Handles of terms and numbers of events are places. -/
structure Recorder (A : Type) where
  terms : List A
  events : List Event
  /-- Pending instances by the handles of quantifier and ground body. -/
  pending : List ((Nat × Nat) × Nat)

/-- What a call does to the recorder, even if it throws. -/
abbrev Recording (A : Type) : Type → Type := Effectful (Recorder A)

variable {A : Type}

/-- Records an event under the next number. -/
def record (event : Event) : Recording A Nat := do
  let current ← look fun recorder => .ok recorder.events.length
  effect (fun _ => []) fun recorder => { recorder with events := recorder.events ++ [event] }
  pure current

/-- Leaves an accepted instance pending. -/
def rememberQuantifierInstance (quantifier body event : Nat) : Recording A Unit := do
  match ← look fun recorder => .ok (recorder.pending.lookup (quantifier, body)) with
  | none => effect (fun _ => []) fun recorder =>
      { recorder with pending := ((quantifier, body), event) :: recorder.pending }
  | some _ => look fun _ => .error "duplicate pending Rainfall quantifier instance"

/-- Takes the pending instance of a quantifier and a ground body. -/
def takeQuantifierInstance (quantifier body : Nat) : Recording A (Option Nat) := do
  let found ← look fun recorder => .ok (recorder.pending.lookup (quantifier, body))
  effect (fun _ => []) fun recorder =>
    { recorder with pending := recorder.pending.filter (·.1 != (quantifier, body)) }
  pure found

/-! ## What the recorder keeps -/

/-- An event accepts the instance with these handles. -/
def Accepts (events : List Event) (quantifier body event : Nat) : Prop :=
  ∃ operation role engine, events[event]? = some (.accepted operation quantifier body role engine)

def Quiet (before after : List Event) : Prop :=
  ∃ more, after = before ++ more ∧ ∀ clause, .clause clause ∉ more

/-- Terms keep their handles, the same instances are pending, and other events are added. -/
structure Grows (before after : Recorder A) : Prop where
  events : ∃ more, after.events = before.events ++ more ∧ ∀ event ∈ more, event.plain = true
  terms : before.terms <+: after.terms
  distinct : before.terms.Nodup → after.terms.Nodup
  pending : after.pending = before.pending

def Pending (recorder : Recorder A) (join : Join) : Prop :=
  ((join.quantifier, join.body), join.event) ∈ recorder.pending

/-- An `inst` hint of a quantifier, a body and bound terms. -/
structure Hint (terms : Terms A) (hint quantifier body : A) (bound : List A) : Prop where
  named : terms.name hint = "inst"
  shape : ∃ negated bindings more, terms.args hint = quantifier :: negated :: bindings :: more ∧
    terms.args negated = [body] ∧ terms.args bindings = bound

/-- The clause has the handles of its hint's terms. -/
def Names (terms : Terms A) (known : List A) (clause : Clause) (join : Join) : Prop :=
  ∃ hint quantifier body bound, Hint terms hint quantifier body bound ∧
    known[clause.hint]? = some hint ∧ known[join.quantifier]? = some quantifier ∧
    known[join.body]? = some body ∧
    List.Forall₂ (fun handle term => known[handle]? = some term) join.bindings bound

/-- What holds between calls, and within one that has accepted instances still to refer to. -/
structure Sound (terms : Terms A) (held : List Nat) (recorder : Recorder A) : Prop where
  /-- No term has two handles. -/
  distinct : recorder.terms.Nodup
  /-- Pending instances were accepted with their handles. -/
  accepted : ∀ entry ∈ recorder.pending, Accepts recorder.events entry.1.1 entry.1.2 entry.2
  /-- Clauses of instances refer to one, and a clause only to an earlier one with its handles. -/
  joined : ∀ (index : Nat) (clause : Clause), recorder.events[index]? = some (.clause clause) →
    (clause.hintHead = "inst" → clause.join.isSome) ∧
    ∀ join, clause.join = some join → join.event < index ∧
      Accepts recorder.events join.quantifier join.body join.event ∧
      Names terms recorder.terms clause join
  /-- No instance is referred to, held or pending twice. -/
  once : (recorder.events.filterMap Event.joined ++ held ++ recorder.pending.map Prod.snd).Nodup

variable {events more : List Event} {event quantifier body : Nat} {held : List Nat}
  {recorder before after : Recorder A} {terms : Terms A}

theorem Quiet.refl (events : List Event) : Quiet events events :=
  ⟨[], (List.append_nil _).symm, nofun⟩

theorem Quiet.snoc (events : List Event) {event : Event} (other : ∀ clause, event ≠ .clause clause) :
    Quiet events (events ++ [event]) :=
  ⟨[event], rfl, fun clause member => other clause (List.mem_singleton.mp member).symm⟩

variable {first second : List Event} {failed : Recorder A → Prop}

theorem Quiet.trans {third : List Event} (head : Quiet first second) (tail : Quiet second third) :
    Quiet first third := by
  obtain ⟨more, rfl, none⟩ := head
  obtain ⟨others, rfl, free⟩ := tail
  refine ⟨more ++ others, List.append_assoc .., fun clause member => ?_⟩
  exact (List.mem_append.mp member).elim (none clause) (free clause)

theorem Quiet.clause (quiet : Quiet first second) {index : Nat} {clause : Clause}
    (found : second[index]? = some (.clause clause)) : first[index]? = some (.clause clause) := by
  obtain ⟨more, rfl, free⟩ := quiet
  rw [List.getElem?_append] at found
  split at found
  · exact found
  · exact absurd (List.mem_of_getElem? found) (free clause)

section

variable (accepts : Accepts events quantifier body event)

include accepts

theorem Accepts.append :
    Accepts (events ++ more) quantifier body event := by
  obtain ⟨operation, role, engine, found⟩ := accepts
  exact ⟨operation, role, engine,
    (List.getElem?_append_left (List.getElem?_eq_some_iff.mp found).1).trans found⟩

theorem Accepts.lt : event < events.length := by
  obtain ⟨_, _, _, found⟩ := accepts
  exact (List.getElem?_eq_some_iff.mp found).1

theorem Accepts.quiet (quiet : Quiet events more) : Accepts more quantifier body event := by
  obtain ⟨_, rfl, _⟩ := quiet
  exact accepts.append

end

/-- A known handle stays that of its term. -/
theorem getElem?_of_terms {known later : List A} (kept : known <+: later) {handle : Nat} {term : A}
    (found : known[handle]? = some term) : later[handle]? = some term := by
  obtain ⟨more, rfl⟩ := kept
  exact (List.getElem?_append_left (List.getElem?_eq_some_iff.mp found).1).trans found

theorem Names.mono {known later : List A} (kept : known <+: later) {clause : Clause} {join : Join}
    (names : Names terms known clause join) : Names terms later clause join := by
  obtain ⟨hint, quantifier, body, bound, isHint, atHint, atQuantifier, atBody, atBound⟩ := names
  exact ⟨hint, quantifier, body, bound, isHint, getElem?_of_terms kept atHint,
    getElem?_of_terms kept atQuantifier, getElem?_of_terms kept atBody,
    atBound.imp fun _ _ => getElem?_of_terms kept⟩

/-- Adding no clause and keeping what is pending and known is sound. -/
theorem Sound.quiet (sound : Sound terms held before) (quiet : Quiet before.events after.events)
    (kept : before.terms <+: after.terms) (distinct : after.terms.Nodup)
    (pending : after.pending = before.pending) : Sound terms held after := by
  have referred : after.events.filterMap Event.joined = before.events.filterMap Event.joined := by
    obtain ⟨more, same, free⟩ := quiet
    rw [same, List.filterMap_append, List.append_right_eq_self, List.filterMap_eq_nil_iff]
    intro event member
    match event with
    | .clause clause => exact absurd member (free clause)
    | .term .. | .accepted .. | .other .. => rfl
  refine ⟨distinct, fun entry member => ?_, fun index clause found => ?_, ?_⟩
  · exact (sound.accepted entry (pending ▸ member)).quiet quiet
  · obtain ⟨inst, joined⟩ := sound.joined index clause (quiet.clause found)
    refine ⟨inst, fun join joins => ?_⟩
    obtain ⟨earlier, accepts, names⟩ := joined join joins
    exact ⟨earlier, accepts.quiet quiet, names.mono kept⟩
  · rw [referred, pending]
    exact sound.once

theorem Grows.quiet (grows : Grows before after) : Quiet before.events after.events := by
  obtain ⟨more, same, plain⟩ := grows.events
  exact ⟨more, same, fun clause member => Bool.false_ne_true (plain _ member)⟩

theorem Sound.grows (sound : Sound terms held before) (grows : Grows before after) :
    Sound terms held after :=
  sound.quiet grows.quiet grows.terms (grows.distinct sound.distinct) grows.pending

theorem record_ends {event : Event} {holds : Nat → Recorder A → Prop}
    (added : holds recorder.events.length { recorder with events := recorder.events ++ [event] }) :
    Ends (record event) recorder failed holds :=
  .look_bind (.effect_bind added)

theorem Sound.drop (sound : Sound terms held recorder) : Sound terms [] recorder :=
  { sound with once := sound.once.sublist (by simp) }

theorem Sound.below (sound : Sound terms held recorder) :
    ∀ event ∈ recorder.events.filterMap Event.joined ++ recorder.pending.map Prod.snd,
      event < recorder.events.length := by
  intro event member
  rcases List.mem_append.mp member with referred | pending
  · obtain ⟨entry, inside, joins⟩ := List.mem_filterMap.mp referred
    obtain ⟨index, found⟩ := List.mem_iff_getElem?.mp inside
    match entry with
    | .clause clause =>
      obtain ⟨join, isJoin, rfl⟩ := Option.map_eq_some_iff.mp joins
      exact ((sound.joined index clause found).2 join isJoin).2.1.lt
    | .term .. | .accepted .. | .other .. => cases joins
  · obtain ⟨entry, inside, rfl⟩ := List.mem_map.mp pending
    exact (sound.accepted entry inside).lt

theorem Sound.accept (sound : Sound terms [] recorder) (operation role engine : String)
    (quantifier body : Nat) :
    Sound terms [recorder.events.length] { recorder with
      events := recorder.events ++ [.accepted operation quantifier body role engine] } := by
  have grown : Sound terms [] { recorder with
      events := recorder.events ++ [.accepted operation quantifier body role engine] } :=
    sound.quiet (Quiet.snoc _ nofun) (List.prefix_refl _) sound.distinct rfl
  refine { grown with once := ?_ }
  have fresh := fun member => Nat.lt_irrefl _ (sound.below recorder.events.length member)
  have once := sound.once
  rw [List.append_nil] at once
  rw [List.filterMap_append, List.append_assoc, List.append_assoc]
  exact List.nodup_middle.mpr (List.nodup_cons.mpr ⟨fresh, once⟩)

theorem remember_ends (sound : Sound terms [event] recorder)
    (accepts : Accepts recorder.events quantifier body event) :
    Ends (rememberQuantifierInstance quantifier body event) recorder
      (fun after => Sound terms [] after ∧ after.events = recorder.events ∧
        after.terms = recorder.terms)
      fun _ after => Sound terms [] after ∧ after.events = recorder.events ∧
        after.terms = recorder.terms := by
  refine .look_bind ?_
  cases found : recorder.pending.lookup (quantifier, body) with
  | some _ => exact .look (fun _ _ => ⟨sound.drop, rfl, rfl⟩) nofun
  | none =>
    refine ⟨⟨sound.distinct, List.forall_mem_cons.mpr ⟨accepts, sound.accepted⟩, sound.joined, ?_⟩,
      rfl, rfl⟩
    simpa [effect] using sound.once

theorem Sound.discard (sound : Sound terms [] recorder) {fewer : List ((Nat × Nat) × Nat)}
    (sublist : fewer.Sublist recorder.pending) :
    Sound terms [] { recorder with pending := fewer } :=
  ⟨sound.distinct, fun entry member => sound.accepted entry (sublist.mem member), sound.joined,
    sound.once.sublist ((sublist.map Prod.snd).append_left _)⟩

theorem Sound.take (sound : Sound terms [] recorder) {key : Nat × Nat}
    (member : (key, event) ∈ recorder.pending) :
    Sound terms [event] { recorder with pending := recorder.pending.filter (·.1 != key) } := by
  have left := sound.discard (List.filter_sublist (p := (·.1 != key)))
  have once := sound.once
  have rest := left.once
  rw [List.append_nil] at once rest
  refine { left with once := ?_ }
  rw [List.append_assoc]
  refine List.nodup_middle.mpr (List.nodup_cons.mpr ⟨fun inside => ?_, rest⟩)
  rcases List.mem_append.mp inside with referred | pending
  · exact List.disjoint_of_nodup_append once referred (List.mem_map_of_mem member)
  · obtain ⟨entry, kept, same⟩ := List.mem_map.mp pending
    obtain ⟨inside, other⟩ := List.mem_filter.mp kept
    have equal := List.inj_on_of_nodup_map once.of_append_right inside member same
    simp [equal] at other

theorem take_ends (sound : Sound terms [] recorder) :
    Ends (takeQuantifierInstance quantifier body) recorder failed fun found after =>
      Sound terms found.toList after ∧ after.events = recorder.events ∧
        after.terms = recorder.terms ∧
        ∀ event, found = some event → ((quantifier, body), event) ∈ recorder.pending := by
  refine .look_bind (.effect_bind ?_)
  cases found : recorder.pending.lookup (quantifier, body) with
  | none => exact ⟨sound.discard List.filter_sublist, rfl, rfl, nofun⟩
  | some event =>
    obtain ⟨before, behind, split, _⟩ := List.lookup_eq_some_iff.mp found
    have member : ((quantifier, body), event) ∈ recorder.pending := by
      rw [split]
      exact List.mem_append_right _ List.mem_cons_self
    exact ⟨sound.take member, rfl, rfl, by rintro _ ⟨⟩; exact member⟩

theorem Sound.clause {clause : Clause}
    (sound : Sound terms (clause.join.map Join.event).toList recorder)
    (accepts : ∀ join, clause.join = some join →
      Accepts recorder.events join.quantifier join.body join.event ∧
      Names terms recorder.terms clause join)
    (inst : clause.hintHead = "inst" → clause.join.isSome) :
    Sound terms [] { recorder with events := recorder.events ++ [.clause clause] } := by
  refine ⟨sound.distinct, fun entry member => (sound.accepted entry member).append,
    fun index added found => ?_, ?_⟩
  · rw [List.getElem?_append] at found
    split at found
    · obtain ⟨inst, joined⟩ := sound.joined index added found
      refine ⟨inst, fun join joins => ?_⟩
      obtain ⟨earlier, accepts, names⟩ := joined join joins
      exact ⟨earlier, accepts.append, names⟩
    · obtain ⟨rfl⟩ := List.mem_singleton.mp (List.mem_of_getElem? found)
      refine ⟨inst, fun join joins => ?_⟩
      obtain ⟨accepts, names⟩ := accepts join joins
      exact ⟨by have := accepts.lt; omega, accepts.append, names⟩
  · have once := sound.once
    rw [List.append_nil, List.filterMap_append]
    cases joins : clause.join <;> simpa [joins, Event.joined] using once

theorem Grows.refl (recorder : Recorder A) : Grows recorder recorder :=
  ⟨⟨[], (List.append_nil _).symm, by simp⟩, List.prefix_refl _, id, rfl⟩

theorem Grows.trans {first second third : Recorder A} (head : Grows first second)
    (tail : Grows second third) : Grows first third := by
  obtain ⟨more, same, plain⟩ := head.events
  obtain ⟨others, same', plain'⟩ := tail.events
  refine ⟨⟨more ++ others, by rw [same', same, List.append_assoc], fun event member => ?_⟩,
    head.terms.trans tail.terms, tail.distinct ∘ head.distinct, tail.pending.trans head.pending⟩
  exact (List.mem_append.mp member).elim (plain event) (plain' event)

/-- What is pending was so before. -/
theorem Grows.was_pending (grows : Grows before after) {join : Join}
    (pending : Pending after join) : Pending before join := by
  rwa [Pending, grows.pending] at pending

/-- The new `inst` clauses are of the hint, each for the instance it joins. -/
def Takes (terms : Terms A) (hint : A) (before after : Recorder A) : Prop :=
  ∀ (index : Nat) (clause : Clause), before.events.length ≤ index →
    after.events[index]? = some (.clause clause) → clause.hintHead = "inst" →
    after.terms[clause.hint]? = some hint ∧ ∃ join, clause.join = some join ∧
      Pending before join ∧ Names terms after.terms clause join

/-- The new accepted instances are of this quantifier and body. -/
def Adds (quantifier body : A) (before after : Recorder A) : Prop :=
  ∀ (index : Nat) operation first second role engine, before.events.length ≤ index →
    after.events[index]? = some (.accepted operation first second role engine) →
    after.terms[first]? = some quantifier ∧ after.terms[second]? = some body

theorem Quiet.takes (quiet : Quiet before.events after.events) (hint : A) :
    Takes terms hint before after := fun _ _ beyond found =>
  absurd (List.getElem?_eq_some_iff.mp (quiet.clause found)).1 (Nat.not_lt.mpr beyond)

theorem Quiet.takes_clause (quiet : Quiet before.events after.events) {clause : Clause} {hint : A}
    (takes : clause.hintHead = "inst" → after.terms[clause.hint]? = some hint ∧
      ∃ join, clause.join = some join ∧ Pending before join ∧
        Names terms after.terms clause join) :
    Takes terms hint before { after with events := after.events ++ [.clause clause] } := by
  intro index added beyond found
  rw [List.getElem?_append] at found
  split at found
  · exact quiet.takes hint index added beyond found
  · obtain ⟨rfl⟩ := List.mem_singleton.mp (List.mem_of_getElem? found)
    exact takes

theorem Grows.adds (grows : Grows before after) (quantifier body : A) :
    Adds quantifier body before after := by
  intro index operation first second role engine beyond found
  obtain ⟨more, same, plain⟩ := grows.events
  rw [same, List.getElem?_append_right beyond] at found
  exact absurd (plain _ (List.mem_of_getElem? found)) Bool.false_ne_true

/-- A new term gets the next handle. -/
theorem Grows.declare {expression : A} (new : expression ∉ recorder.terms) (added : List Event)
    (plain : ∀ event ∈ added, event.plain = true) :
    Grows recorder ⟨recorder.terms ++ [expression], recorder.events ++ added, recorder.pending⟩ := by
  refine ⟨⟨added, rfl, plain⟩, List.prefix_append _ _, fun distinct => ?_, rfl⟩
  exact distinct.append (List.nodup_singleton _) (by simpa using new)

/-! ## The two observers -/

variable [DecidableEq A] (terms)

/-- The handle of a term, declared when the term is new. -/
def term (expression : A) (representation : String) : Recording A Nat := do
  match ← look fun recorder => .ok (recorder.terms.findIdx? (· = expression)) with
  | some handle => pure handle
  | none =>
    let handle ← look fun recorder => .ok recorder.terms.length
    effect (fun _ => []) fun recorder => { recorder with terms := recorder.terms ++ [expression] }
    let text ← look fun _ => terms.lift expression
    let _ ← record (.term handle text representation)
    pure handle

def references (representation : String) : List A → Recording A (List Nat)
  | [] => pure []
  | expression :: rest => do
    let reference ← term terms expression representation
    let others ← references representation rest
    pure (reference :: others)

/-- The engines that a query enables. -/
structure Engines where
  ematching : Bool
  mbqi : Bool

/-- Name of the engine that an instance is due to. -/
def Engines.attribution (engines : Engines) : String :=
  if engines.ematching && !engines.mbqi then "ematching-only-query"
  else if !engines.ematching && engines.mbqi then "mbqi-only-query"
  else "not-distinguished"

/-- The quantifier observer's callback. -/
def onBinding (engines : Engines) (quantifier body : A) : Recording A Unit := do
  let quantifierReference ← term terms quantifier "semantic-z3"
  let bodyReference ← term terms body "semantic-z3"
  let event ← record (.accepted
    (if engines.ematching then "z3.quantifier-instance" else "z3.mbqi-instance")
    quantifierReference bodyReference ((terms.qid quantifier).getD "unlabelled")
    engines.attribution)
  rememberQuantifierInstance quantifierReference bodyReference event

def labels (hintHead : String) : String × String × String :=
  if hintHead = "assumption" then ("z3.clause.assume", "constraint", "assumed")
  else if hintHead = "del" then ("z3.clause.delete", "transition", "deleted")
  else ("z3.clause.infer", "derive", "inferred")

/-- Joins the clause of an `inst` hint to its instance. -/
def joinInstance (quantifier negated bindings : A) : Recording A Join := do
  match terms.args negated with
  | [body] =>
    if terms.isNot negated && terms.isApp bindings && terms.name bindings == "bind" then
      let quantifierReference ← term terms quantifier "semantic-z3"
      let bodyReference ← term terms body "semantic-z3"
      match ← takeQuantifierInstance quantifierReference bodyReference with
      | none => look fun _ => .error "quantifier lemma has no exact accepted-instance evidence"
      | some accepted =>
        let bindingReferences ← references terms "semantic-z3" (terms.args bindings)
        pure ⟨accepted, quantifierReference, bodyReference, bindingReferences⟩
    else look fun _ => .error "unexpected Z3 inst proof-hint shape"
  | _ => look fun _ => .error "unexpected Z3 inst proof-hint shape"

def joinHint (hint : A) : Recording A (Option Join) :=
  match terms.args hint with
  | quantifier :: negated :: bindings :: _ =>
    if terms.name hint = "inst" then do
      let join ← joinInstance terms quantifier negated bindings
      pure (some join)
    else pure none
  | _ => pure none

/-- The clause observer's callback. -/
def onClause (hint : A) (dependencies : List Nat) (clause : List A) : Recording A Unit := do
  let literals ← references terms "z3-cdcl-clause-literal" clause
  let hintReference ← term terms hint "z3-clause-proof-hint"
  let join ← joinHint terms hint
  let _ ← record (.clause ⟨labels (terms.name hint), hintReference, terms.name hint, literals,
    dependencies, join⟩)
  pure ()

/-- A call to the recorder. -/
inductive Call (A : Type) where
  /-- The solver accepts an instance. -/
  | binding (engines : Engines) (quantifier body : A)
  /-- The solver admits or removes a clause. -/
  | clause (hint : A) (dependencies : List Nat) (literals : List A)
  /-- Another component asks for the handle of a term. -/
  | term (expression : A) (representation : String)
  /-- Another component records an event. -/
  | other (operation : String)

def perform : Call A → Recording A Unit
  | .binding engines quantifier body => onBinding terms engines quantifier body
  | .clause hint dependencies literals => onClause terms hint dependencies literals
  | .term expression representation => do
    let _ ← term terms expression representation
    pure ()
  | .other operation => do
    let _ ← record (.other operation)
    pure ()

/-- The recorder after calls, whichever of them throw. -/
def run (calls : List (Call A)) : Recorder A :=
  calls.foldl (fun recorder call => (perform terms call recorder).final) ⟨[], [], []⟩

/-- An `inst` hint has the quantifier, the negated body, the binding and more. -/
def Call.Delivered : Call A → Prop
  | .clause hint _ _ => terms.name hint = "inst" → 3 ≤ (terms.args hint).length
  | _ => True

/-- A term gets a handle, which is its own. -/
theorem term_ends (expression : A) (representation : String) (recorder : Recorder A) :
    Ends (term terms expression representation) recorder (Grows recorder) fun handle after =>
      Grows recorder after ∧ after.terms[handle]? = some expression := by
  refine .look_bind ?_
  cases place : recorder.terms.findIdx? (· = expression) with
  | some handle =>
    obtain ⟨inside, same, -⟩ := List.findIdx?_eq_some_iff_getElem.mp place
    exact ⟨.refl _, List.getElem?_eq_some_iff.mpr ⟨inside, of_decide_eq_true same⟩⟩
  | none =>
    have new : expression ∉ recorder.terms := fun member => by
      simpa using List.findIdx?_eq_none_iff.mp place expression member
    have declared : Grows recorder { recorder with terms := recorder.terms ++ [expression] } := by
      simpa using Grows.declare new [] (by simp)
    refine .look_bind (.effect_bind (.bind (.look (fun _ _ => declared) fun text _ => ?_)))
    refine .bind (record_ends ⟨Grows.declare new _ ?_, List.getElem?_concat_length⟩)
    simp [Event.plain]

/-- Terms get handles, which are their own. -/
theorem references_ends (representation : String) (expressions : List A) (recorder : Recorder A) :
    Ends (references terms representation expressions) recorder (Grows recorder)
      fun handles after => Grows recorder after ∧
        List.Forall₂ (fun handle term => after.terms[handle]? = some term) handles expressions := by
  induction expressions generalizing recorder with
  | nil => exact ⟨.refl _, .nil⟩
  | cons expression rest ih =>
    refine .bind ((term_ends terms expression representation recorder).mono (fun _ => id) ?_)
    rintro handle middle ⟨grows, found⟩
    refine .bind ((ih middle).mono (fun _ => grows.trans) ?_)
    rintro handles after ⟨more, others⟩
    exact ⟨grows.trans more, .cons (getElem?_of_terms more.terms found) others⟩

/-- A hint is joined to the pending instance of its quantifier and body. -/
theorem joinInstance_ends (quantifier negated bindings : A) (sound : Sound terms [] recorder) :
    Ends (joinInstance terms quantifier negated bindings) recorder
      (fun after => Sound terms [] after ∧ Quiet recorder.events after.events)
      fun join after => Sound terms [join.event] after ∧ Quiet recorder.events after.events ∧
        recorder.terms <+: after.terms ∧ Pending recorder join ∧
        after.terms[join.quantifier]? = some quantifier ∧
        ∃ body, terms.args negated = [body] ∧ after.terms[join.body]? = some body ∧
          List.Forall₂ (fun handle term => after.terms[handle]? = some term) join.bindings
            (terms.args bindings) := by
  rw [joinInstance]
  split
  case h_2 => exact .look (fun _ _ => ⟨sound, .refl _⟩) nofun
  case h_1 body negation =>
    split
    case isFalse => exact .look (fun _ _ => ⟨sound, .refl _⟩) nofun
    case isTrue =>
      refine .bind ((term_ends terms quantifier _ recorder).mono
        (fun after grows => ⟨sound.grows grows, grows.quiet⟩) ?_)
      rintro first middle ⟨grows, atFirst⟩
      refine .bind ((term_ends terms body _ middle).mono (fun after more =>
        ⟨sound.grows (grows.trans more), (grows.trans more).quiet⟩) ?_)
      rintro second later ⟨growth, atSecond⟩
      have whole := grows.trans growth
      refine .bind ((take_ends (sound.grows whole)).mono (fun _ => id) ?_)
      rintro found rest ⟨held, same, known, pending⟩
      have quiet : Quiet recorder.events rest.events := same ▸ whole.quiet
      cases found with
      | none => exact .look (fun _ _ => ⟨held, quiet⟩) nofun
      | some event =>
        refine .bind ((references_ends terms _ _ rest).mono (fun after more =>
          ⟨(held.grows more).drop, quiet.trans more.quiet⟩) ?_)
        rintro references after ⟨more, bound⟩
        have kept : later.terms <+: after.terms := known ▸ more.terms
        exact ⟨held.grows more, quiet.trans more.quiet, whole.terms.trans kept,
          @Grows.was_pending _ _ _ whole ⟨event, first, second, references⟩ (pending event rfl),
          getElem?_of_terms (growth.terms.trans kept) atFirst, body, negation,
          getElem?_of_terms kept atSecond, bound⟩

/-- An `inst` hint is joined to what it names. -/
theorem joinHint_ends (hint : A) (sound : Sound terms [] recorder) :
    Ends (joinHint terms hint) recorder
      (fun after => Sound terms [] after ∧ Quiet recorder.events after.events)
      fun join after => Sound terms (join.map Join.event).toList after ∧
        Quiet recorder.events after.events ∧ recorder.terms <+: after.terms ∧
        (∀ found, join = some found → Pending recorder found ∧
          ∀ clause : Clause, after.terms[clause.hint]? = some hint →
            Names terms after.terms clause found) ∧
        (terms.name hint = "inst" → 3 ≤ (terms.args hint).length → join.isSome) := by
  rw [joinHint]
  split
  case h_2 short =>
    refine ⟨sound, .refl _, List.prefix_refl _, nofun, fun _ long => ?_⟩
    match args : terms.args hint with
    | quantifier :: negated :: bindings :: rest => exact absurd args (short _ _ _ _)
    | [] | [_] | [_, _] => simp [args] at long
  case h_1 quantifier negated bindings more args =>
    split
    case isFalse other =>
      exact ⟨sound, .refl _, List.prefix_refl _, nofun, fun inst => absurd inst other⟩
    case isTrue inst =>
      refine .bind ((joinInstance_ends terms _ _ _ sound).mono (fun _ => id) ?_)
      rintro join after ⟨held, quiet, kept, pending, atQuantifier, body, negation, atBody, bound⟩
      refine ⟨held, quiet, kept, ?_, fun _ _ => rfl⟩
      rintro _ ⟨⟩
      exact ⟨pending, fun clause atHint => ⟨hint, quantifier, body, _,
        ⟨inst, negated, bindings, more, args, negation, rfl⟩, atHint, atQuantifier, atBody, bound⟩⟩

/-- An `inst` clause is recorded for what was pending only. -/
theorem onClause_ends (hint : A) (dependencies : List Nat) (literals : List A)
    (sound : Sound terms [] recorder)
    (long : terms.name hint = "inst" → 3 ≤ (terms.args hint).length) :
    Ends (onClause terms hint dependencies literals) recorder
      (fun after => Sound terms [] after ∧ Takes terms hint recorder after)
      fun _ after => Sound terms [] after ∧ Takes terms hint recorder after := by
  refine .bind ((references_ends terms _ literals recorder).mono
    (fun after grows => ⟨sound.grows grows, grows.quiet.takes hint⟩) ?_)
  rintro references middle ⟨grows, -⟩
  refine .bind ((term_ends terms hint _ middle).mono (fun after more =>
    ⟨sound.grows (grows.trans more), (grows.trans more).quiet.takes hint⟩) ?_)
  rintro reference later ⟨growth, atHint⟩
  have whole := grows.trans growth
  refine .bind ((joinHint_ends terms hint (sound.grows whole)).mono
    (fun after ended => ⟨ended.1, (whole.quiet.trans ended.2).takes hint⟩) ?_)
  rintro join rest ⟨held, quiet, kept, named, inst⟩
  have silent := whole.quiet.trans quiet
  have here := getElem?_of_terms kept atHint
  have pending : ∀ found, join = some found → Pending recorder found := fun found is =>
    whole.was_pending (named found is).1
  refine .bind (record_ends ⟨held.clause (fun found is => ?_) fun head => inst head (long head),
    silent.takes_clause fun head => ?_⟩)
  · exact ⟨(sound.accepted _ (pending found is)).quiet silent, (named found is).2 _ here⟩
  · obtain ⟨found, is⟩ := Option.isSome_iff_exists.mp (inst head (long head))
    exact ⟨here, found, is, pending found is, (named found is).2 _ here⟩

/-- A binding callback records the instance it is given. -/
theorem onBinding_ends (engines : Engines) (quantifier body : A)
    (sound : Sound terms [] recorder) :
    Ends (onBinding terms engines quantifier body) recorder
      (fun after => Sound terms [] after ∧ Adds quantifier body recorder after)
      fun _ after => Sound terms [] after ∧ Adds quantifier body recorder after := by
  refine .bind ((term_ends terms quantifier _ recorder).mono
    (fun _ grows => ⟨sound.grows grows, grows.adds _ _⟩) ?_)
  rintro first middle ⟨grows, atFirst⟩
  refine .bind ((term_ends terms body _ middle).mono (fun _ more =>
    ⟨sound.grows (grows.trans more), (grows.trans more).adds _ _⟩) ?_)
  rintro second later ⟨growth, atSecond⟩
  have whole := grows.trans growth
  have adds : ∀ operation role engine, ∀ after : Recorder A,
      after.events = later.events ++ [.accepted operation first second role engine] →
      after.terms = later.terms → Adds quantifier body recorder after := by
    intro operation role engine after same known
    have atFirst := getElem?_of_terms growth.terms atFirst
    intro index _ _ _ _ _ beyond found
    rw [same, List.getElem?_append] at found
    split at found
    · rw [known]
      exact whole.adds quantifier body index _ _ _ _ _ beyond found
    · cases List.mem_singleton.mp (List.mem_of_getElem? found)
      rw [known]
      exact ⟨atFirst, atSecond⟩
  refine .bind (record_ends ((remember_ends ((sound.grows whole).accept ..) ?_).mono ?_ ?_))
  · exact ⟨_, _, _, List.getElem?_concat_length⟩
  · exact fun after ended => ⟨ended.1, adds _ _ _ after ended.2.1 ended.2.2⟩
  · exact fun _ after ended => ⟨ended.1, adds _ _ _ after ended.2.1 ended.2.2⟩

/-- Every call leaves the recorder sound. -/
theorem perform_sound {call : Call A} (delivered : call.Delivered terms)
    (sound : Sound terms [] recorder) : Sound terms [] (perform terms call recorder).final := by
  cases call with
  | binding engines quantifier body =>
    exact (onBinding_ends terms engines quantifier body sound).final.1
  | clause hint dependencies literals =>
    exact (onClause_ends terms hint dependencies literals sound delivered).final.1
  | term expression representation =>
    exact Ends.final (.bind ((term_ends terms expression representation recorder).mono
      (fun _ => sound.grows) fun _ _ ended => sound.grows ended.1))
  | other operation =>
    exact sound.quiet (Quiet.snoc _ nofun) (List.prefix_refl _) sound.distinct rfl

/-- The recorder is sound after every run. -/
theorem run_sound {calls : List (Call A)} (delivered : ∀ call ∈ calls, call.Delivered terms) :
    Sound terms [] (run terms calls) := by
  refine List.foldlRecOn calls _ ⟨List.nodup_nil, nofun, nofun, List.nodup_nil⟩ ?_
  exact fun recorder sound call member => perform_sound terms (delivered call member) sound

/-- In every run each recorded `inst` clause refers to an earlier accepted instance with its
handles, those of the quantifier and the ground body of its own hint; no term has two handles and no
two clauses refer to one instance; the next clause callback records an `inst` clause only for an
instance that is pending under the handles of its hint's terms; and the next binding callback
accepts instances of its own terms only. -/
theorem accepted_instances_joined {calls : List (Call A)}
    (delivered : ∀ call ∈ calls, call.Delivered terms) :
    (∀ (index : Nat) (clause : Clause), (run terms calls).events[index]? = some (.clause clause) →
      clause.hintHead = "inst" → ∃ join, clause.join = some join ∧ join.event < index ∧
        Accepts (run terms calls).events join.quantifier join.body join.event ∧
        Names terms (run terms calls).terms clause join) ∧
    (run terms calls).terms.Nodup ∧ ((run terms calls).events.filterMap Event.joined).Nodup ∧
    (∀ hint dependencies literals, (Call.clause hint dependencies literals).Delivered terms →
      Takes terms hint (run terms calls)
        (run terms (calls ++ [.clause hint dependencies literals]))) ∧
    ∀ engines quantifier body, Adds quantifier body (run terms calls)
      (run terms (calls ++ [.binding engines quantifier body])) := by
  have sound := run_sound terms delivered
  have snoc (call : Call A) : run terms (calls ++ [call]) =
      (perform terms call (run terms calls)).final := List.foldl_concat ..
  refine ⟨fun index clause found inst => ?_, sound.distinct, ?_,
    fun hint dependencies literals long => ?_, fun engines quantifier body => ?_⟩
  · obtain ⟨joins, earlier⟩ := sound.joined index clause found
    obtain ⟨join, is⟩ := Option.isSome_iff_exists.mp (joins inst)
    exact ⟨join, is, earlier join is⟩
  · exact (List.append_nil _ ▸ sound.once).of_append_left
  · rw [snoc]
    exact (onClause_ends terms hint dependencies literals sound long).final.2
  · rw [snoc]
    exact (onBinding_ends terms engines quantifier body sound).final.2

/-- A quantifier, a body, its negation, a binding and the hint. -/
def sampleTerms : Terms (Fin 5) where
  name := (["", "p", "not", "bind", "inst"].getD ·.val "")
  args := ([[], [], [1], [], [0, 2, 3, 3]].getD ·.val [])
  isApp := (· != 0)
  isNot := (· == 2)
  qid := fun _ => none
  lift := fun _ => .ok ""

/-- An instance is accepted, made a clause, and once more. -/
def sampleCalls : List (Call (Fin 5)) :=
  [.binding ⟨true, false⟩ 0 1, .clause 4 [] [2], .clause 4 [] [2], .binding ⟨true, false⟩ 0 1,
    .clause 4 [] [2]]

/-- The second clause is refused, and the third refers to the second acceptance. -/
theorem accepted_instances_joined_sample :
    (run sampleTerms sampleCalls).events.filterMap Event.joined = [2, 6] ∧
      ((run sampleTerms sampleCalls).events.filterMap Event.joined).Nodup ∧
      ∃ clause join, (run sampleTerms sampleCalls).events[7]? = some (.clause clause) ∧
        clause.join = some join ∧ join.event < 7 ∧
        Accepts (run sampleTerms sampleCalls).events join.quantifier join.body join.event ∧
        Names sampleTerms (run sampleTerms sampleCalls).terms clause join := by
  have joined := accepted_instances_joined sampleTerms
    (show ∀ call ∈ sampleCalls, call.Delivered sampleTerms by
      simp [sampleCalls, Call.Delivered]; decide)
  obtain ⟨clause, found⟩ : ∃ clause,
    (run sampleTerms sampleCalls).events[7]? = some (.clause clause) := ⟨_, rfl⟩
  have inst : clause.hintHead = "inst" := by
    cases found
    rfl
  obtain ⟨join, is, named⟩ := joined.1 7 clause found inst
  exact ⟨by decide, joined.2.2.1, clause, join, found, is, named⟩

end Fine.Rainfall.Observers
