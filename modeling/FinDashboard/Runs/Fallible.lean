import Mathlib.Data.List.Forall2

/-!
# Calls that may fail

A sequence of calls ends with the first error.
-/

namespace FinDashboard

open List

variable {ε α β : Type} {f : α → Except ε β} {x : Except ε α}

/-- What a successful sequence of calls returned in between. -/
theorem exists_of_bind_eq_ok {b : β} (returned : (x >>= f) = .ok b) : ∃ a, x = .ok a ∧ f a = .ok b := by
  cases x with
  | error e => cases returned
  | ok a => exact ⟨a, rfl, returned⟩

theorem bind_eq_ok {b : β} : (x >>= f) = .ok b ↔ ∃ a, x = .ok a ∧ f a = .ok b := by
  constructor
  · exact exists_of_bind_eq_ok
  · rintro ⟨a, rfl, returned⟩
    exact returned

theorem ok_of_guard {refused : Prop} [Decidable refused] {e : ε} {rest : Except ε α} {a : α}
    (returned : (if refused then .error e else rest) = .ok a) : ¬refused ∧ rest = .ok a := by
  by_cases refuse : refused
  · rw [if_pos refuse] at returned
    cases returned
  · rw [if_neg refuse] at returned
    exact ⟨refuse, returned⟩

def collect (f : α → Except ε β) : List α → Except ε (List β)
  | [] => .ok []
  | a :: rest => do
    let b ← f a
    let later ← collect f rest
    .ok (b :: later)

variable {as : List α} {bs : List β} {γ : Type}

/-- What every successful call says about its result holds place by place. -/
theorem collect_map {g : β → γ} {h : α → γ} (collected : collect f as = .ok bs)
    (each : ∀ a ∈ as, ∀ b, f a = .ok b → g b = h a) : bs.map g = as.map h := by
  induction as generalizing bs with
  | nil =>
    cases collected
    rfl
  | cons a rest ih =>
    obtain ⟨b, first, collected⟩ := exists_of_bind_eq_ok collected
    obtain ⟨later, remaining, collected⟩ := exists_of_bind_eq_ok collected
    cases collected
    have rests := ih remaining fun other member => each other (mem_cons_of_mem _ member)
    rw [map_cons, map_cons, each a mem_cons_self b first, rests]

/-- Every result is the result of one of the calls. -/
theorem collect_mem (collected : collect f as = .ok bs) : ∀ b ∈ bs, ∃ a ∈ as, f a = .ok b := by
  induction as generalizing bs with
  | nil =>
    cases collected
    nofun
  | cons a rest ih =>
    obtain ⟨first, called, collected⟩ := exists_of_bind_eq_ok collected
    obtain ⟨later, remaining, collected⟩ := exists_of_bind_eq_ok collected
    cases collected
    intro b member
    obtain rfl | behind := mem_cons.mp member
    · exact ⟨a, mem_cons_self, called⟩
    · obtain ⟨other, there, result⟩ := ih remaining b behind
      exact ⟨other, mem_cons_of_mem _ there, result⟩

theorem exists_of_collect (collected : collect f as = .ok bs) : ∀ a ∈ as, ∃ b ∈ bs, f a = .ok b := by
  induction as generalizing bs with
  | nil => nofun
  | cons a rest ih =>
    obtain ⟨first, called, collected⟩ := exists_of_bind_eq_ok collected
    obtain ⟨later, remaining, collected⟩ := exists_of_bind_eq_ok collected
    cases collected
    intro other member
    obtain rfl | behind := mem_cons.mp member
    · exact ⟨first, mem_cons_self, called⟩
    · obtain ⟨b, there, result⟩ := ih remaining other behind
      exact ⟨b, mem_cons_of_mem _ there, result⟩

theorem collect_of_ok {g : α → β} (each : ∀ a ∈ as, f a = .ok (g a)) : collect f as = .ok (as.map g) := by
  induction as with
  | nil => rfl
  | cons a rest ih =>
    have first := each a mem_cons_self
    have rests := ih fun other member => each other (mem_cons_of_mem _ member)
    simp [collect, first, rests, bind, Except.bind]

theorem collect_congr {f g : α → Except ε β} (same : ∀ a ∈ as, f a = g a) :
    collect f as = collect g as := by
  induction as with
  | nil => rfl
  | cons a rest ih =>
    have first := same a mem_cons_self
    have rests := ih fun other member => same other (mem_cons_of_mem _ member)
    simp [collect, first, rests]

theorem collect_comp {g : γ → α} {items : List γ} :
    collect f (items.map g) = collect (fun item => f (g item)) items := by
  induction items with
  | nil => rfl
  | cons item rest ih => simp [collect, ih]

/-- Calls that succeed where others did, with a part of their results. -/
theorem mapM_of_collect {g : α → Option γ} {part : β → γ} (collected : collect f as = .ok bs)
    (each : ∀ a b, f a = .ok b → g a = some (part b)) : as.mapM g = some (bs.map part) := by
  induction as generalizing bs with
  | nil =>
    cases collected
    rfl
  | cons a rest ih =>
    obtain ⟨b, first, collected⟩ := exists_of_bind_eq_ok collected
    obtain ⟨later, remaining, collected⟩ := exists_of_bind_eq_ok collected
    cases collected
    rw [mapM_cons, each a b first, ih remaining]
    rfl

/-- Two calls fail with the same error, or both return, with related results. -/
inductive SameOutcome (related : α → β → Prop) : Except ε α → Except ε β → Prop
  | ok {a : α} {b : β} (agree : related a b) : SameOutcome related (.ok a) (.ok b)
  | error (e : ε) : SameOutcome related (.error e) (.error e)

theorem SameOutcome.bind {α' β' : Type} {related : α → β → Prop} {after : α' → β' → Prop}
    {y : Except ε β} {f : α → Except ε α'} {g : β → Except ε β'} (first : SameOutcome related x y)
    (next : ∀ a b, x = .ok a → related a b → SameOutcome after (f a) (g b)) :
    SameOutcome after (x >>= f) (y >>= g) := by
  cases first with
  | ok agree => exact next _ _ rfl agree
  | error e => exact .error e

theorem SameOutcome.collect {related : β → γ → Prop}
    {g : α → Except ε γ} (each : ∀ a, SameOutcome related (f a) (g a)) (as : List α) :
    SameOutcome (List.Forall₂ related) (collect f as) (FinDashboard.collect g as) := by
  induction as with
  | nil => exact .ok .nil
  | cons a rest ih =>
    refine (each a).bind fun b c _ agree => ?_
    exact ih.bind fun later others _ agrees => .ok (.cons agree agrees)

end FinDashboard
