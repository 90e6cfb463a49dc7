import Mathlib.Logic.Function.Basic

/-!
# Runs whose steps meet a condition

A system takes its steps one after the other. `Guarded` says that every step of a run meets a
condition on the state it is taken from; what such steps keep holds in every state the run reaches.

`Parties` share a state and keep one of their own each. A turn of one party leaves the own states of the
others alone.
-/

namespace FinDashboard.Runs

variable {σ α : Type}

def run (step : σ → α → σ) (s : σ) (steps : List α) : σ := steps.foldl step s

/-- Every step of the run meets the condition in the state it is taken from. -/
def Guarded (step : σ → α → σ) (allowed : σ → α → Prop) : σ → List α → Prop
  | _, [] => True
  | s, a :: rest => allowed s a ∧ Guarded step allowed (step s a) rest

variable {step : σ → α → σ} {allowed : σ → α → Prop}

@[simp] theorem run_nil (s : σ) : run step s [] = s := rfl

@[simp] theorem run_cons (s : σ) (a : α) (rest : List α) :
    run step s (a :: rest) = run step (step s a) rest := rfl

theorem run_append (s : σ) (first second : List α) :
    run step s (first ++ second) = run step (run step s first) second :=
  List.foldl_append

variable {Inv : σ → Prop}

theorem run_invariant {s : σ} (start : Inv s)
    (keeps : ∀ s a, Inv s → Inv (step s a)) (steps : List α) : Inv (run step s steps) := by
  induction steps generalizing s with
  | nil => exact start
  | cons a rest ih => exact ih (keeps s a start)

instance decidableGuarded [∀ s a, Decidable (allowed s a)] :
    ∀ s steps, Decidable (Guarded step allowed s steps)
  | _, [] => .isTrue trivial
  | s, a :: rest =>
    have := decidableGuarded (step s a) rest
    inferInstanceAs (Decidable (allowed s a ∧ Guarded step allowed (step s a) rest))

namespace Guarded

variable {s : σ} {first second steps : List α}

theorem of_append (guarded : Guarded step allowed s (first ++ second)) :
    Guarded step allowed s first ∧ Guarded step allowed (run step s first) second := by
  induction first generalizing s with
  | nil => exact ⟨trivial, guarded⟩
  | cons a rest ih =>
    have later := ih guarded.2
    exact ⟨⟨guarded.1, later.1⟩, later.2⟩

theorem invariant (guarded : Guarded step allowed s steps) (start : Inv s)
    (keeps : ∀ s a, Inv s → allowed s a → Inv (step s a)) : Inv (run step s steps) := by
  induction steps generalizing s with
  | nil => exact start
  | cons a rest ih => exact ih guarded.2 (keeps s a start guarded.1)

/-- Two conditions that agree in the states of the run guard the same runs. -/
theorem iff_of_invariant {other : σ → α → Prop} (start : Inv s)
    (keeps : ∀ s a, Inv s → Inv (step s a)) (agree : ∀ s a, Inv s → (allowed s a ↔ other s a)) :
    Guarded step allowed s steps ↔ Guarded step other s steps := by
  induction steps generalizing s with
  | nil => exact Iff.rfl
  | cons a rest ih => exact and_congr (agree s a start) (ih (keeps s a start))

/-- Two conditions that agree as long as the second is met guard the same runs. -/
theorem iff_of_guarded_invariant {other : σ → α → Prop} (start : Inv s)
    (agree : ∀ s a, Inv s → (allowed s a ↔ other s a))
    (keeps : ∀ s a, Inv s → other s a → Inv (step s a)) :
    Guarded step allowed s steps ↔ Guarded step other s steps := by
  induction steps generalizing s with
  | nil => exact Iff.rfl
  | cons a rest ih =>
    have now := agree s a start
    constructor
    · rintro ⟨first, later⟩
      exact ⟨now.mp first, (ih (keeps s a start (now.mp first))).mp later⟩
    · rintro ⟨first, later⟩
      exact ⟨now.mpr first, (ih (keeps s a start first)).mpr later⟩

/-- Two conditions that agree on the steps the surroundings allow guard the same of their runs. -/
theorem iff_of_possible {possible other : σ → α → Prop} (run : Guarded step possible s steps)
    (start : Inv s) (keeps : ∀ s a, Inv s → possible s a → Inv (step s a))
    (agree : ∀ s a, Inv s → possible s a → (allowed s a ↔ other s a)) :
    Guarded step allowed s steps ↔ Guarded step other s steps := by
  induction steps generalizing s with
  | nil => exact Iff.rfl
  | cons a rest ih =>
    obtain ⟨now, later⟩ := run
    exact and_congr (agree s a start now) (ih later (keeps s a start now))

theorem follows {R : σ → σ → Prop} (guarded : Guarded step allowed s steps)
    (start : Inv s) (keeps : ∀ s a, Inv s → allowed s a → Inv (step s a))
    (refl : ∀ s, R s s) (trans : ∀ {s t u}, R s t → R t u → R s u)
    (follows : ∀ s a, Inv s → allowed s a → R s (step s a)) : R s (run step s steps) := by
  induction steps generalizing s with
  | nil => exact refl s
  | cons a rest ih =>
    have now := follows s a start guarded.1
    exact trans now (ih guarded.2 (keeps s a start guarded.1))

end Guarded

section Parties

variable {ι ρ τ : Type} [DecidableEq ι]

/-- A state all parties share, and one for each of them. -/
structure Parties (ι σ τ : Type) where
  shared : σ
  own : ι → τ

/-- A party takes its turn: it may change the shared state and its own. -/
def turn (act : ι → ρ → σ → τ → σ × τ) (parties : Parties ι σ τ) (event : ι × ρ) : Parties ι σ τ :=
  let next := act event.1 event.2 parties.shared (parties.own event.1)
  ⟨next.1, Function.update parties.own event.1 next.2⟩

/-- A condition on a turn looks at the shared state and at that of the party whose turn it is. -/
def TurnMeets (condition : ι → ρ → σ → τ → Prop) (parties : Parties ι σ τ) (event : ι × ρ) : Prop :=
  condition event.1 event.2 parties.shared (parties.own event.1)

instance {condition : ι → ρ → σ → τ → Prop} [∀ i r s t, Decidable (condition i r s t)] (parties : Parties ι σ τ) (event : ι × ρ) :
    Decidable (TurnMeets condition parties event) :=
  inferInstanceAs (Decidable (condition _ _ _ _))

/-- What is known of the shared state, and of the own state of every party. -/
def EachKnows (common : σ → Prop) (known : ι → σ → τ → Prop) (parties : Parties ι σ τ) : Prop :=
  common parties.shared ∧ ∀ i, known i parties.shared (parties.own i)

/-- A turn keeps what its party knows, if it leaves alone what the others know. -/
theorem EachKnows.turn {act : ι → ρ → σ → τ → σ × τ} {common : σ → Prop} {known : ι → σ → τ → Prop}
    {parties : Parties ι σ τ} {event : ι × ρ} (knows : EachKnows common known parties)
    (keeps : common (act event.1 event.2 parties.shared (parties.own event.1)).1 ∧
      known event.1 (act event.1 event.2 parties.shared (parties.own event.1)).1
        (act event.1 event.2 parties.shared (parties.own event.1)).2)
    (stable : ∀ i t, known i parties.shared t →
      known i (act event.1 event.2 parties.shared (parties.own event.1)).1 t) :
    EachKnows common known (turn act parties event) := by
  refine ⟨keeps.1, fun i => ?_⟩
  by_cases other : i = event.1
  · subst other
    simpa only [Runs.turn, Function.update_self] using keeps.2
  · simpa only [Runs.turn, Function.update_of_ne other] using stable i _ (knows.2 i)

end Parties

end FinDashboard.Runs
