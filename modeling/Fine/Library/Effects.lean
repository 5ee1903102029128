import Mathlib

/-!
# Computations whose effects may be cut short

A computation leaves a trail: what the disk held after each of its effects. A process that is
stopped leaves the disk at some point of it.
-/

namespace Fine.Effects

/-- How a computation went. -/
structure Outcome (σ α : Type) where
  /-- What the disk held after each effect. -/
  trail : List σ
  /-- What the disk holds at the end. -/
  final : σ
  /-- The value, or why there is none. -/
  result : Except String α

/-- A computation over a disk. -/
def Effectful (σ α : Type) : Type := σ → Outcome σ α

variable {σ α β γ : Type}

namespace Effectful

def pure (value : α) : Effectful σ α := fun disk => ⟨[], disk, .ok value⟩

/-- One computation after another, unless the first fails. -/
def bind (first : Effectful σ α) (next : α → Effectful σ β) : Effectful σ β := fun disk =>
  match (first disk).result with
  | .error message => ⟨(first disk).trail, (first disk).final, .error message⟩
  | .ok value =>
    ⟨(first disk).trail ++ (next value (first disk).final).trail,
      (next value (first disk).final).final, (next value (first disk).final).result⟩

instance : Monad (Effectful σ) where
  pure := Effectful.pure
  bind := Effectful.bind

def look (reading : σ → Except String α) : Effectful σ α := fun disk => ⟨[], disk, reading disk⟩

/-- An effect that leads through some contents to the last. -/
def effect (through : σ → List σ) (last : σ → σ) : Effectful σ Unit :=
  fun disk => ⟨through disk ++ [last disk], last disk, .ok ()⟩

/-- Where the disk may stand when the computation is stopped. -/
def Stops (action : Effectful σ α) (start disk : σ) : Prop :=
  disk = start ∨ disk ∈ (action start).trail

variable {first : Effectful σ α} {next : α → Effectful σ β} {disk : σ}

theorem bind_of_ok {value : α} (run : (first disk).result = .ok value) :
    (first >>= next) disk = ⟨(first disk).trail ++ (next value (first disk).final).trail,
      (next value (first disk).final).final, (next value (first disk).final).result⟩ := by
  show Effectful.bind first next disk = _
  rw [Effectful.bind, run]

theorem bind_of_error {message : String} (run : (first disk).result = .error message) :
    (first >>= next) disk = ⟨(first disk).trail, (first disk).final, .error message⟩ := by
  show Effectful.bind first next disk = _
  rw [Effectful.bind, run]

theorem mem_trail_bind {middle : σ} (member : middle ∈ (first disk).trail) :
    middle ∈ ((first >>= next) disk).trail := by
  cases run : (first disk).result with
  | error message => rwa [bind_of_error run]
  | ok value =>
    rw [bind_of_ok run]
    exact List.mem_append_left _ member

theorem look_bind_of_ok {reading : σ → Except String α} {value : α}
    (read : reading disk = .ok value) : (look reading >>= next) disk = next value disk := by
  rw [bind_of_ok (show (look reading disk).result = .ok value from read)]
  rfl

end Effectful

open Effectful

/-- Every point of the trail is related to the start. -/
def Within (relation : σ → σ → Prop) (action : Effectful σ α) : Prop :=
  ∀ start, (∀ disk ∈ (action start).trail, relation start disk) ∧
    relation start (action start).final

/-- The trail is related to the start up to one effect that changes what is looked at; failures come
before it. -/
def Atomic (relation : σ → σ → Prop) (view : σ → γ) (action : Effectful σ α) : Prop :=
  ∀ start, (∀ disk ∈ (action start).trail, relation start disk ∨
      (∃ value, (action start).result = .ok value) ∧ view disk = view (action start).final) ∧
    ∀ message, (action start).result = .error message → relation start (action start).final

variable {through : σ → List σ} {last : σ → σ}

section Rules

variable {relation : σ → σ → Prop} {view : σ → γ} {first : Effectful σ α}
  {next : α → Effectful σ β}

theorem Within.look (reflexive : ∀ disk, relation disk disk) (reading : σ → Except String α) :
    Within relation (Effectful.look reading) := fun start => ⟨nofun, reflexive start⟩

theorem Within.bind (transitive : ∀ {a b c}, relation a b → relation b c → relation a c)
    (head : Within relation first) (tail : ∀ value, Within relation (next value)) :
    Within relation (first >>= next) := by
  intro start
  obtain ⟨trail, final⟩ := head start
  cases run : (first start).result with
  | error message =>
    rw [bind_of_error run]
    exact ⟨trail, final⟩
  | ok value =>
    rw [bind_of_ok run]
    have after := tail value (first start).final
    refine ⟨fun disk member => ?_, transitive final after.2⟩
    rcases List.mem_append.mp member with before | behind
    · exact trail disk before
    · exact transitive final (after.1 disk behind)

theorem Within.atomic_bind (transitive : ∀ {a b c}, relation a b → relation b c → relation a c)
    (head : Within relation first)
    (tail : ∀ start value, (first start).result = .ok value → Atomic relation view (next value)) :
    Atomic relation view (first >>= next) := by
  intro start
  obtain ⟨trail, final⟩ := head start
  cases run : (first start).result with
  | error message =>
    rw [bind_of_error run]
    exact ⟨fun disk member => .inl (trail disk member), fun _ _ => final⟩
  | ok value =>
    rw [bind_of_ok run]
    have after := tail start value run (first start).final
    refine ⟨fun disk member => ?_, fun message failed => transitive final (after.2 message failed)⟩
    rcases List.mem_append.mp member with before | behind
    · exact .inl (trail disk before)
    · exact (after.1 disk behind).imp (transitive final) id

theorem Atomic.bind_pure (head : Atomic relation view first)
    (tail : ∀ value, ∃ answer, next value = Effectful.pure answer) :
    Atomic relation view (first >>= next) := by
  intro start
  obtain ⟨trail, failed⟩ := head start
  cases run : (first start).result with
  | error message =>
    rw [bind_of_error run]
    refine ⟨fun disk member => (trail disk member).imp id fun committed => ?_,
      fun message' _ => failed message run⟩
    obtain ⟨value, ok⟩ := committed.1
    cases run.symm.trans ok
  | ok value =>
    obtain ⟨answer, same⟩ := tail value
    rw [bind_of_ok run, same]
    refine ⟨fun disk member => ?_, nofun⟩
    rw [Effectful.pure, List.append_nil] at member
    exact (trail disk member).imp id fun committed => ⟨⟨answer, rfl⟩, committed.2⟩

theorem Atomic.effect (inside : ∀ start, ∀ disk ∈ through start, relation start disk) :
    Atomic relation view (Effectful.effect through last) := by
  refine fun start => ⟨fun disk member => ?_, nofun⟩
  rcases List.mem_append.mp member with before | here
  · exact .inl (inside start disk before)
  · rw [List.mem_singleton.mp here]
    exact .inr ⟨⟨(), rfl⟩, rfl⟩

end Rules

/-- What holds of value and disk at the end, or of the disk after a failure. -/
def Ends (action : Effectful σ α) (start : σ) (failed : σ → Prop) (holds : α → σ → Prop) : Prop :=
  match (action start).result with
  | .ok value => holds value (action start).final
  | .error _ => failed (action start).final

section Endings

variable {start : σ} {failed : σ → Prop} {holds : β → σ → Prop} {first : Effectful σ α}
  {next : α → Effectful σ β}

theorem Ends.bind
    (head : Ends first start failed fun value disk => Ends (next value) disk failed holds) :
    Ends (first >>= next) start failed holds := by
  rw [Ends] at head
  cases run : (first start).result with
  | error message =>
    rw [run] at head
    rwa [Ends, bind_of_error run]
  | ok value =>
    rw [run] at head
    rwa [Ends, bind_of_ok run]

theorem Ends.look {reading : σ → Except String β}
    (fails : ∀ message, reading start = .error message → failed start)
    (goes : ∀ value, reading start = .ok value → holds value start) :
    Ends (Effectful.look reading) start failed holds := by
  rw [Ends]
  cases read : (Effectful.look reading start).result with
  | error message => exact fails message read
  | ok value => exact goes value read

theorem Ends.look_bind {reading : σ → α} (tail : Ends (next (reading start)) start failed holds) :
    Ends (Effectful.look (fun disk => .ok (reading disk)) >>= next) start failed holds :=
  .bind tail

theorem Ends.effect_bind {next : Unit → Effectful σ β}
    (tail : Ends (next ()) (last start) failed holds) :
    Ends (effect through last >>= next) start failed holds :=
  .bind tail

variable {action : Effectful σ β}

theorem Ends.mono {before : σ → Prop} {held : β → σ → Prop} (ends : Ends action start before held)
    (fails : ∀ disk, before disk → failed disk)
    (goes : ∀ value disk, held value disk → holds value disk) : Ends action start failed holds := by
  rw [Ends] at ends ⊢
  split at ends
  · exact goes _ _ ends
  · exact fails _ ends

theorem Ends.final {ended : σ → Prop} (ends : Ends action start ended fun _ => ended) :
    ended (action start).final := by
  rw [Ends] at ends
  split at ends <;> exact ends

end Endings

end Fine.Effects
