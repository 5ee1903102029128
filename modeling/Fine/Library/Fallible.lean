import Mathlib

/-!
# Computations with a state that may fail

What a success of a sequence says about its parts, and what its parts say about the sequence.
-/

namespace Fine.Fallible

open List

variable {σ ε α β : Type}

theorem run_get_bind (next : σ → StateT σ (Except ε) α) (state : σ) :
    StateT.run (get >>= next) state = (next state).run state := rfl

variable {first : StateT σ (Except ε) α} {second next : α → StateT σ (Except ε) β} {inputs : List α}

theorem run_bind_ok {state final : σ} {result : β}
    (run : StateT.run (first >>= second) state = .ok (result, final)) :
    ∃ value later, first.run state = .ok (value, later) ∧
      (second value).run later = .ok (result, final) := by
  rw [StateT.run_bind] at run
  cases head : first.run state with
  | error failure =>
    rw [head] at run
    cases run
  | ok found =>
    rw [head] at run
    exact ⟨found.1, found.2, rfl, run⟩

variable {later : σ} {value : α} {failure : ε} {compute : α → Except ε β} {results : List β}
  {related : α → β → Prop}

theorem run_bind_of_ok {state : σ} (run : first.run state = .ok (value, later)) :
    StateT.run (first >>= second) state = (second value).run later := by
  rw [StateT.run_bind, run]
  rfl

theorem run_bind_of_error {state : σ} (run : first.run state = .error failure) :
    StateT.run (first >>= second) state = .error failure := by
  rw [StateT.run_bind, run]
  rfl

/-- Computations that succeed alike, and may fail differently. -/
def Agrees (first second : StateT σ (Except ε) α) : Prop :=
  ∀ state result, first.run state = .ok result ↔ second.run state = .ok result

namespace Agrees

theorem refl (action : StateT σ (Except ε) α) : Agrees action action := fun _ _ => Iff.rfl

theorem symm {second : StateT σ (Except ε) α} (agrees : Agrees first second) :
    Agrees second first := fun state result => (agrees state result).symm

theorem trans {second third : StateT σ (Except ε) α} (left : Agrees first second)
    (right : Agrees second third) : Agrees first third :=
  fun state result => (left state result).trans (right state result)

theorem bind {second : StateT σ (Except ε) α} {other : α → StateT σ (Except ε) β}
    (head : Agrees first second) (tail : ∀ value, Agrees (next value) (other value)) :
    Agrees (first >>= next) (second >>= other) := by
  have half : ∀ {first second : StateT σ (Except ε) α} {next other : α → StateT σ (Except ε) β},
      Agrees first second → (∀ value, Agrees (next value) (other value)) → ∀ state result,
        StateT.run (first >>= next) state = .ok result →
          StateT.run (second >>= other) state = .ok result := by
    intro first second next other head tail state result run
    obtain ⟨value, later, ran, run⟩ := run_bind_ok run
    rw [run_bind_of_ok ((head _ _).mp ran)]
    exact (tail value _ _).mp run
  exact fun state result =>
    ⟨half head tail state result, half head.symm (fun value => (tail value).symm) state result⟩

end Agrees

/-- The computation leaves what is asked, or fails for an allowed reason. -/
def Ends (allowed : ε → Prop) (action : StateT σ (Except ε) α) (state : σ)
    (post : α → σ → Prop) : Prop :=
  match action.run state with
  | .ok (value, later) => post value later
  | .error failure => allowed failure

namespace Ends

variable {allowed : ε → Prop} {action : StateT σ (Except ε) α} {state : σ} {post : α → σ → Prop}

theorem pure (here : post value state) :
    Ends allowed (Pure.pure value : StateT σ (Except ε) α) state post := here

theorem ok (ends : Ends allowed action state post) (run : action.run state = .ok (value, later)) :
    post value later := by
  rw [Ends, run] at ends
  exact ends

theorem error (ends : Ends allowed action state post) (run : action.run state = .error failure) :
    allowed failure := by
  rw [Ends, run] at ends
  exact ends

theorem of_ok (ends : Ends allowed action state fun _ _ => True)
    (each : ∀ value later, action.run state = .ok (value, later) → post value later) :
    Ends allowed action state post := by
  unfold Ends
  split
  · rename_i run
    exact each _ _ run
  · rename_i run
    exact ends.error run

theorem mono {less : α → σ → Prop} (ends : Ends allowed action state post)
    (weaker : ∀ value later, post value later → less value later) :
    Ends allowed action state less := by
  unfold Ends
  split
  · rename_i run
    exact weaker _ _ (ends.ok run)
  · rename_i run
    exact ends.error run

theorem remember (ends : Ends allowed action state post) :
    Ends allowed action state fun value later =>
      post value later ∧ action.run state = .ok (value, later) := by
  unfold Ends
  split
  · rename_i run
    exact ⟨ends.ok run, run⟩
  · rename_i run
    exact ends.error run

variable {last : β → σ → Prop}

theorem bind (first : Ends allowed action state post)
    (rest : ∀ value later, post value later → Ends allowed (next value) later last) :
    Ends allowed (action >>= next) state last := by
  unfold Ends
  cases run : action.run state with
  | error failure =>
    rw [run_bind_of_error run]
    exact first.error run
  | ok found =>
    obtain ⟨value, later⟩ := found
    rw [run_bind_of_ok run]
    exact rest value later (first.ok run)

theorem after (run : action.run state = .ok (value, later))
    (rest : Ends allowed (next value) later last) : Ends allowed (action >>= next) state last := by
  rw [Ends, run_bind_of_ok run]
  exact rest

end Ends

/-- A list of computations succeeds where each does. -/
theorem mapM_ok_iff :
    inputs.mapM compute = .ok results ↔
      Forall₂ (fun input result => compute input = .ok result) inputs results := by
  induction inputs generalizing results with
  | nil =>
    rw [mapM_nil, forall₂_nil_left_iff]
    exact ⟨fun same => (Except.ok.inj same).symm, fun same => same ▸ rfl⟩
  | cons input inputs ih =>
    rw [mapM_cons]
    cases head : compute input with
    | error failure =>
      constructor
      · intro same
        cases same
      · intro all
        cases all with
        | cons first _ => rw [head] at first; cases first
    | ok result =>
      cases tail : inputs.mapM compute with
      | error failure =>
        constructor
        · intro same
          cases same
        · intro all
          cases all with
          | cons _ rest => rw [ih.mpr rest] at tail; cases tail
      | ok others =>
        constructor
        · intro same
          obtain rfl := Except.ok.inj same
          exact .cons head (ih.mp tail)
        · intro all
          cases all with
          | cons first rest =>
            rw [head] at first
            rw [ih.mpr rest] at tail
            rw [Except.ok.inj first, Except.ok.inj tail]
            rfl

theorem exists_mapM_ok_iff :
    (∃ results, inputs.mapM compute = .ok results) ↔
      ∀ input ∈ inputs, ∃ result, compute input = .ok result := by
  simp only [mapM_ok_iff]
  constructor
  · rintro ⟨results, all⟩ input member
    induction all with
    | nil => cases member
    | cons run _ ih =>
      cases member with
      | head => exact ⟨_, run⟩
      | tail _ member => exact ih member
  · intro each
    induction inputs with
    | nil => exact ⟨[], .nil⟩
    | cons input inputs ih =>
      obtain ⟨result, run⟩ := each input mem_cons_self
      obtain ⟨results, all⟩ := ih fun other member => each other (mem_cons_of_mem _ member)
      exact ⟨result :: results, .cons run all⟩

theorem exists_of_forall₂_right (all : Forall₂ related inputs results) {result : β}
    (member : result ∈ results) : ∃ input ∈ inputs, related input result := by
  induction all with
  | nil => cases member
  | cons head _ ih =>
    cases member with
    | head => exact ⟨_, mem_cons_self, head⟩
    | tail _ member =>
      obtain ⟨input, there, holds⟩ := ih member
      exact ⟨input, mem_cons_of_mem _ there, holds⟩

theorem exists_forall₂ (each : ∀ input ∈ inputs, ∃ result, related input result) :
    ∃ results, Forall₂ related inputs results := by
  induction inputs with
  | nil => exact ⟨[], .nil⟩
  | cons input inputs ih =>
    obtain ⟨result, head⟩ := each input mem_cons_self
    obtain ⟨results, tail⟩ := ih fun other member => each other (mem_cons_of_mem _ member)
    exact ⟨result :: results, .cons head tail⟩

theorem forall₂_graph_iff {holds : α → Prop} {compute : α → β} :
    Forall₂ (fun input result => holds input ∧ result = compute input) inputs results ↔
      (∀ input ∈ inputs, holds input) ∧ results = inputs.map compute := by
  induction inputs generalizing results with
  | nil => simp
  | cons input inputs ih =>
    cases results with
    | nil => simp
    | cons result results =>
      rw [forall₂_cons, ih]
      simp only [mem_cons, forall_eq_or_imp, map_cons, List.cons.injEq]
      exact ⟨fun ⟨⟨head, same⟩, tail, rest⟩ => ⟨⟨head, tail⟩, same, rest⟩,
        fun ⟨⟨head, tail⟩, same, rest⟩ => ⟨⟨head, same⟩, tail, rest⟩⟩

end Fine.Fallible
