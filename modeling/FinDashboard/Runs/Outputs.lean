import Mathlib.Data.List.Basic
import Mathlib.Order.Defs.PartialOrder

/-!
# Runs that yield outputs

A run takes one input after the other; each step yields an output and the next state, or ends the run
with an error. The outputs of a run can be cut at any place, and the rest of the run is the run from the
state reached there.
-/

namespace FinDashboard.Runs

open List

variable {σ ι ο ε : Type}

/-- The outputs of a run, and the error that ended it, if one did. A step knows its place. -/
def outputs (step : ℕ → σ → ι → Except ε (ο × σ)) (place : ℕ) (s : σ) :
    List ι → List ο × Option ε
  | [] => ([], none)
  | input :: rest =>
    match step place s input with
    | .error error => ([], some error)
    | .ok (output, next) =>
      let later := outputs step (place + 1) next rest
      (output :: later.1, later.2)

/-- Some inputs lead from a place and a state to another state, yielding outputs. -/
inductive Reaches (step : ℕ → σ → ι → Except ε (ο × σ)) :
    ℕ → σ → List ι → List ο → σ → Prop
  | start (place : ℕ) (s : σ) : Reaches step place s [] [] s
  | next {place : ℕ} {s mid t : σ} {input : ι} {output : ο} {inputs : List ι} {outs : List ο}
      (first : step place s input = .ok (output, mid))
      (later : Reaches step (place + 1) mid inputs outs t) :
      Reaches step place s (input :: inputs) (output :: outs) t

variable {step : ℕ → σ → ι → Except ε (ο × σ)} {place : ℕ} {s t : σ} {inputs : List ι}
  {outs : List ο}

@[simp] theorem outputs_nil : outputs step place s [] = ([], none) := rfl

theorem outputs_cons_ok {input : ι} {output : ο} (first : step place s input = .ok (output, t)) :
    outputs step place s (input :: inputs) =
      (output :: (outputs step (place + 1) t inputs).1, (outputs step (place + 1) t inputs).2) := by
  rw [outputs, first]

theorem outputs_cons_error {input : ι} {error : ε} (first : step place s input = .error error) :
    outputs step place s (input :: inputs) = ([], some error) := by
  rw [outputs, first]

/-- A run cut after so many outputs: a state is reached there, and the rest is the run from it. -/
theorem outputs_cut {count : ℕ} (enough : count ≤ (outputs step place s inputs).1.length) :
    ∃ mid, Reaches step place s (inputs.take count) ((outputs step place s inputs).1.take count) mid ∧
      (outputs step place s inputs).1.drop count =
        (outputs step (place + count) mid (inputs.drop count)).1 ∧ (outputs step place s inputs).2 =
        (outputs step (place + count) mid (inputs.drop count)).2 := by
  induction count generalizing place s inputs with
  | zero => exact ⟨s, .start place s, rfl, rfl⟩
  | succ count ih =>
    cases inputs with
    | nil => cases enough
    | cons input rest =>
      cases first : step place s input with
      | error error =>
        rw [outputs_cons_error first] at enough
        cases enough
      | ok result =>
        obtain ⟨output, next⟩ := result
        rw [outputs_cons_ok first] at enough ⊢
        obtain ⟨mid, reached, remaining, ending⟩ := ih (Nat.le_of_succ_le_succ enough)
        have places : place + (count + 1) = place + 1 + count := by omega
        refine ⟨mid, .next first reached, ?_, ?_⟩
        · rw [places]
          exact remaining
        · rw [places]
          exact ending

theorem Reaches.last {Inv : σ → Prop} (reached : Reaches step place s inputs outs t)
    (keeps : ∀ place s input output next, Inv s → step place s input = .ok (output, next) → Inv next)
    (start : Inv s) (yielded : outs ≠ []) :
    ∃ output before last final, outs.getLast? = some output ∧ Inv before ∧
      step final before last = .ok (output, t) := by
  induction reached with
  | start => exact absurd rfl yielded
  | next first later ih =>
    have kept := keeps _ _ _ _ _ start first
    cases later with
    | start => exact ⟨_, _, _, _, rfl, start, first⟩
    | next second rest =>
      obtain ⟨output, before, last, final, found, held, stepped⟩ := ih kept (cons_ne_nil _ _)
      exact ⟨output, before, last, final, found, held, stepped⟩

theorem Reaches.length (reached : Reaches step place s inputs outs t) : outs.length = inputs.length := by
  induction reached with
  | start => rfl
  | next first later ih => rw [length_cons, length_cons, ih]

/-- Every output is yielded by a step on the input of its place, from a state with the invariant. -/
theorem outputs_getElem {Inv : σ → Prop} {given : ι → Prop} {output : ο} {i : ℕ} (start : Inv s)
    (allowed : ∀ input ∈ inputs, given input) (keeps : ∀ place s input output next, Inv s → given input →
      step place s input = .ok (output, next) → Inv next)
    (found : (outputs step place s inputs).1[i]? = some output) :
    ∃ mid input next, Inv mid ∧ inputs[i]? = some input ∧
      step (place + i) mid input = .ok (output, next) := by
  induction inputs generalizing place s i with
  | nil => cases found
  | cons input rest ih =>
    cases first : step place s input with
    | error error =>
      rw [outputs_cons_error first] at found
      cases found
    | ok result =>
      obtain ⟨yielded, next⟩ := result
      rw [outputs_cons_ok first] at found
      cases i with
      | zero =>
        obtain rfl : yielded = output := Option.some.inj found
        exact ⟨s, input, next, start, rfl, first⟩
      | succ i =>
        have kept := keeps place s input yielded next start (allowed input mem_cons_self) first
        obtain ⟨mid, later, after, held, there, stepped⟩ :=
          ih kept (fun other member => allowed other (mem_cons_of_mem _ member)) found
        have places : place + (i + 1) = place + 1 + i := by omega
        exact ⟨mid, later, after, held, there, places ▸ stepped⟩

theorem outputs_pairwise {M : Type} [Preorder M] {measure : σ → M} {carried : ο → M}
    (keeps : ∀ place s input output next, step place s input = .ok (output, next) →
      measure s ≤ carried output ∧ carried output = measure next) :
    (outputs step place s inputs).1.Pairwise (fun earlier later => carried earlier ≤ carried later) ∧
      ∀ output ∈ (outputs step place s inputs).1, measure s ≤ carried output := by
  induction inputs generalizing place s with
  | nil => exact ⟨.nil, nofun⟩
  | cons input rest ih =>
    cases first : step place s input with
    | error error =>
      rw [outputs_cons_error first]
      exact ⟨.nil, nofun⟩
    | ok result =>
      obtain ⟨output, next⟩ := result
      rw [outputs_cons_ok first]
      obtain ⟨grown, same⟩ := keeps place s input output next first
      obtain ⟨ordered, above⟩ := @ih (place + 1) next
      refine ⟨pairwise_cons.mpr ⟨?_, ordered⟩, ?_⟩
      · intro other member
        rw [same]
        exact above other member
      · intro other member
        rcases mem_cons.mp member with rfl | member
        · exact grown
        · rw [same] at grown
          exact le_trans grown (above other member)

def answers {σ ι ο : Type} (step : σ → ι → ο × σ) (s : σ) : List ι → List ο
  | [] => []
  | input :: rest => (step s input).1 :: answers step (step s input).2 rest

theorem answers_eq_of_agree {σ τ ι ο : Type} {step : σ → ι → ο × σ} {other : τ → ι → ο × τ} {s : σ} {t : τ}
    {Agree : σ → τ → Prop} {given : ι → Prop} {inputs : List ι} (start : Agree s t)
    (allowed : ∀ input ∈ inputs, given input) (alike : ∀ s t input, Agree s t → given input →
      (step s input).1 = (other t input).1 ∧ Agree (step s input).2 (other t input).2) :
    answers step s inputs = answers other t inputs := by
  induction inputs generalizing s t with
  | nil => rfl
  | cons input rest ih =>
    obtain ⟨same, next⟩ := alike s t input start (allowed input mem_cons_self)
    have later := ih next fun after member => allowed after (mem_cons_of_mem _ member)
    rw [answers, answers, same, later]

end FinDashboard.Runs
