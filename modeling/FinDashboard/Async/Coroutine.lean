import Mathlib.Data.List.Pairwise

/-!
# Coroutines over a shared state

A cooperative task runs without interruption between two suspension points. A
`Coroutine` is the tree of its remaining atomic blocks: each block reads a reply of the
environment, updates the shared state, and continues at the next suspension point.
An exception keeps the mutations made before it.
-/

namespace FinDashboard.Async

open List

section Coroutine

/-- A suspended computation over the state `σ`, resumed with replies of type `ι`, whose
atomic blocks carry labels of type `L`. -/
inductive Coroutine (σ ι L ε α : Type) : Type
  | pure (a : α)
  | throw (e : ε)
  | await (label : L) (block : ι → σ → σ) (next : ι → σ → Coroutine σ ι L ε α)

/-- A stretch of code without suspension points: state changes survive a raised error. -/
abbrev Block (σ ε α : Type) : Type := ExceptT ε (StateM σ) α

namespace Block

variable {σ ε α β : Type}

/-- Run a block from a state: its outcome and the state it leaves. -/
def exec (block : Block σ ε α) (s : σ) : Except ε α × σ := block.run.run s

@[simp] theorem exec_pure (a : α) (s : σ) : exec (pure a : Block σ ε α) s = (.ok a, s) := rfl

@[simp] theorem exec_throw (e : ε) (s : σ) :
    exec (throw e : Block σ ε α) s = (.error e, s) := rfl

@[simp] theorem exec_get (s : σ) : exec (get : Block σ ε σ) s = (.ok s, s) := rfl

@[simp] theorem exec_modify (f : σ → σ) (s : σ) :
    exec (modify f : Block σ ε Unit) s = (.ok (), f s) := rfl

variable (block : Block σ ε α)

/-- Sequencing: an error skips the continuation and keeps the state reached so far. -/
theorem exec_bind (f : α → Block σ ε β) (s : σ) :
    exec (block >>= f) s = match exec block s with
      | (.ok a, t) => exec (f a) t
      | (.error e, t) => (.error e, t) := by
  unfold exec
  rw [ExceptT.run_bind, StateT.run_bind]
  change (match block.run.run s with | (outcome, t) => _) = _
  rcases block.run.run s with ⟨_ | _, t⟩ <;> rfl

/-- A conditional block runs one of its branches. -/
theorem exec_ite (c : Prop) [Decidable c] (yes no : Block σ ε α) (s : σ) :
    exec (if c then yes else no) s = if c then exec yes s else exec no s := by
  split <;> rfl

/-- Post-processing the value of a block leaves its effect alone. -/
theorem exec_map (f : α → β) (s : σ) :
    exec (f <$> block) s = ((exec block s).1.map f, (exec block s).2) := by
  rw [← bind_pure_comp, exec_bind]
  rcases exec block s with ⟨_ | _, t⟩ <;> rfl

/-- A block that returns normally is followed by its continuation. -/
theorem exec_bind_ok {block : Block σ ε α} {f : α → Block σ ε β} {s t : σ} {a : α}
    (h : exec block s = (.ok a, t)) : exec (block >>= f) s = exec (f a) t := by
  rw [exec_bind, h]

/-- A block that raises is not followed by its continuation. -/
theorem exec_bind_error {block : Block σ ε α} {f : α → Block σ ε β} {s t : σ} {e : ε}
    (h : exec block s = (.error e, t)) : exec (block >>= f) s = (.error e, t) := by
  rw [exec_bind, h]

/-- A handler runs in the state the raised exception left. -/
theorem exec_tryCatch (handler : ε → Block σ ε α) (s : σ) :
    exec (tryCatch block handler) s = match exec block s with
      | (.ok a, t) => (.ok a, t)
      | (.error e, t) => exec (handler e) t := by
  unfold exec
  rw [ExceptT.run_tryCatch, StateT.run_bind]
  change (match block.run.run s with | (outcome, t) => _) = _
  rcases block.run.run s with ⟨_ | _, t⟩ <;> rfl

end Block

namespace Coroutine

variable {σ ι L ε α β γ : Type}

/-- Continue with `f` after a normal return; an exception skips `f`. -/
def bind : Coroutine σ ι L ε α → (α → Coroutine σ ι L ε β) → Coroutine σ ι L ε β
  | .pure a, f => f a
  | .throw e, _ => .throw e
  | .await l block next, f => .await l block fun i s => (next i s).bind f

/-- Run the handler in place of a raised exception. -/
def tryCatch : Coroutine σ ι L ε α → (ε → Coroutine σ ι L ε α) → Coroutine σ ι L ε α
  | .pure a, _ => .pure a
  | .throw e, handler => handler e
  | .await l block next, handler => .await l block fun i s => (next i s).tryCatch handler

instance : Monad (Coroutine σ ι L ε) where
  pure := .pure
  bind := .bind

instance : MonadExceptOf ε (Coroutine σ ι L ε) where
  throw := .throw
  tryCatch := .tryCatch

/-- Resume with a value already computed. -/
def ofExcept : Except ε α → Coroutine σ ι L ε α
  | .ok a => .pure a
  | .error e => .throw e

/-- Suspend, then run `body` as one uninterrupted block. -/
def atomically (label : L) (body : ι → Block σ ε α) : Coroutine σ ι L ε α :=
  .await label (fun i s => ((body i).exec s).2) (fun i s => ofExcept ((body i).exec s).1)

def result? : Coroutine σ ι L ε α → Option (Except ε α)
  | .pure a => some (.ok a)
  | .throw e => some (.error e)
  | .await _ _ _ => none

def nextLabel : Coroutine σ ι L ε α → Option L
  | .await l _ _ => some l
  | _ => none

def run (answer : L → σ → ι) : Coroutine σ ι L ε α → σ → Except ε α × σ
  | .pure a, s => (.ok a, s)
  | .throw e, s => (.error e, s)
  | .await label block next, s =>
    (next (answer label s) s).run answer (block (answer label s) s)

@[simp] theorem pure_bind (a : α) (f : α → Coroutine σ ι L ε β) :
    (Pure.pure a : Coroutine σ ι L ε α) >>= f = f a := rfl

@[simp] theorem throw_bind (e : ε) (f : α → Coroutine σ ι L ε β) :
    (Coroutine.throw e : Coroutine σ ι L ε α) >>= f = .throw e := rfl

variable (c : Coroutine σ ι L ε α)

theorem bind_assoc (f : α → Coroutine σ ι L ε β)
    (g : β → Coroutine σ ι L ε γ) : c >>= f >>= g = c >>= fun a => f a >>= g := by
  change (c.bind f).bind g = c.bind fun a => (f a).bind g
  induction c with
  | pure a => rfl
  | throw e => rfl
  | await label block next ih =>
    simp only [bind, ih]

section Runs

variable (answer : L → σ → ι) (s : σ)

@[simp] theorem run_pure (a : α) :
    (Pure.pure a : Coroutine σ ι L ε α).run answer s = (.ok a, s) := rfl

@[simp] theorem run_throw (e : ε) :
    (Coroutine.throw e : Coroutine σ ι L ε α).run answer s = (.error e, s) := rfl

theorem run_bind (f : α → Coroutine σ ι L ε β) :
    (c >>= f).run answer s = match c.run answer s with
      | (.ok a, t) => (f a).run answer t
      | (.error e, t) => (.error e, t) := by
  change (c.bind f).run answer s = _
  induction c generalizing s with
  | pure a => rfl
  | throw e => rfl
  | await label block next ih => exact ih _ s _

theorem run_bind_ok {c : Coroutine σ ι L ε α} {f : α → Coroutine σ ι L ε β} {t : σ} {a : α}
    (h : c.run answer s = (.ok a, t)) : (c >>= f).run answer s = (f a).run answer t := by
  rw [run_bind, h]

theorem run_bind_error {c : Coroutine σ ι L ε α} {f : α → Coroutine σ ι L ε β} {t : σ} {e : ε}
    (h : c.run answer s = (.error e, t)) : (c >>= f).run answer s = (.error e, t) := by
  rw [run_bind, h]

theorem run_tryCatch (handler : ε → Coroutine σ ι L ε α) :
    (c.tryCatch handler).run answer s = match c.run answer s with
      | (.ok a, t) => (.ok a, t)
      | (.error e, t) => (handler e).run answer t := by
  induction c generalizing s with
  | pure a => rfl
  | throw e => rfl
  | await label block next ih => exact ih _ s _

theorem run_atomically (label : L) (body : ι → Block σ ε α) :
    (atomically label body).run answer s = (body (answer label s)).exec s := by
  change (ofExcept ((body (answer label s)).exec s).1).run answer
    ((body (answer label s)).exec s).2 = _
  rcases (body (answer label s)).exec s with ⟨_ | _, t⟩ <;> rfl

end Runs

end Coroutine

end Coroutine

/-!
## Interleavings of a pool of coroutines

A schedule names, turn by turn, the task that is resumed and the reply it is resumed with.
Every interleaving of the tasks at their suspension points is one schedule, and every state
reached in an interleaving is the final state of one of its prefixes, so a statement about
all schedules is a statement about all reachable states.
-/

section Pool

variable {σ ι L ε α : Type}

/-- The shared state and the remaining program of each task. -/
structure Pool (σ ι L ε α : Type) where
  shared : σ
  tasks : List (Coroutine σ ι L ε α)

/-- One executed block: who ran it, with which reply, and its effect. -/
structure Turn (σ ι L : Type) where
  task : ℕ
  label : L
  reply : ι
  before : σ
  after : σ

namespace Pool

/-- Run the next block of task `n`; a finished task leaves the pool unchanged. -/
def resume (p : Pool σ ι L ε α) (n : ℕ) (i : ι) : Pool σ ι L ε α :=
  match p.tasks[n]? with
  | some (.await _ block next) => ⟨block i p.shared, p.tasks.set n (next i p.shared)⟩
  | _ => p

/-- The block that `resume` executes, if task `n` is suspended. -/
def turn? (p : Pool σ ι L ε α) (n : ℕ) (i : ι) : Option (Turn σ ι L) :=
  match p.tasks[n]? with
  | some (.await l block _) => some ⟨n, l, i, p.shared, block i p.shared⟩
  | _ => none

/-- Execute a schedule. -/
def exec (p : Pool σ ι L ε α) : List (ℕ × ι) → Pool σ ι L ε α
  | [] => p
  | (n, i) :: rest => (p.resume n i).exec rest

/-- The result of task `n`, once it has run to its end. -/
def result? (p : Pool σ ι L ε α) (n : ℕ) : Option (Except ε α) :=
  p.tasks[n]?.bind Coroutine.result?

def turns (p : Pool σ ι L ε α) : List (ℕ × ι) → List (Turn σ ι L)
  | [] => []
  | (n, i) :: rest => (p.turn? n i).toList ++ (p.resume n i).turns rest

/-- Every executed block meets the condition in the state it starts from. -/
def Admits (Ok : L → ι → σ → Prop) (p : Pool σ ι L ε α) (schedule : List (ℕ × ι)) : Prop :=
  ∀ t ∈ p.turns schedule, Ok t.label t.reply t.before

/-- A task with a result is a finished program. -/
theorem tasks_of_result? {p : Pool σ ι L ε α} {n : ℕ} {result : Except ε α}
    (h : p.result? n = some result) : p.tasks[n]? = some (Coroutine.ofExcept result) := by
  obtain ⟨task, htask, hresult⟩ := Option.bind_eq_some_iff.mp h
  rw [htask]
  cases task with
  | pure a => rw [← Option.some.inj hresult]; rfl
  | throw e => rw [← Option.some.inj hresult]; rfl
  | await l block next => cases hresult

variable (p : Pool σ ι L ε α)

theorem resume_of_await (n : ℕ) (i : ι) {l : L} {block : ι → σ → σ}
    {next : ι → σ → Coroutine σ ι L ε α} (h : p.tasks[n]? = some (.await l block next)) :
    p.resume n i = ⟨block i p.shared, p.tasks.set n (next i p.shared)⟩ := by
  simp only [resume, h]

/-- The executed block of a task whose program is known. -/
theorem turn?_of_await (n : ℕ) (i : ι) {l : L} {block : ι → σ → σ}
    {next : ι → σ → Coroutine σ ι L ε α} (h : p.tasks[n]? = some (.await l block next)) :
    p.turn? n i = some ⟨n, l, i, p.shared, block i p.shared⟩ := by
  simp only [turn?, h]

theorem resume_of_turn?_eq_none (n : ℕ) (i : ι) (h : p.turn? n i = none) : p.resume n i = p := by
  unfold turn? at h
  unfold resume
  split at h
  · contradiction
  · rfl

/-- A turn starts from the shared state and leaves the next one. -/
theorem turn?_shared {p : Pool σ ι L ε α} {n : ℕ} {i : ι} {t : Turn σ ι L}
    (h : p.turn? n i = some t) : t.before = p.shared ∧ t.after = (p.resume n i).shared := by
  unfold turn? at h
  unfold resume
  split at h
  · obtain rfl := Option.some.inj h
    exact ⟨rfl, rfl⟩
  · contradiction

/-- An invariant of every executed block is an invariant of the run. -/
theorem exec_preserves {Inv : σ → Prop} (schedule : List (ℕ × ι))
    (hturns : ∀ t ∈ p.turns schedule, Inv t.before → Inv t.after) (h : Inv p.shared) :
    Inv (p.exec schedule).shared := by
  induction schedule generalizing p with
  | nil => exact h
  | cons entry rest ih =>
    obtain ⟨n, i⟩ := entry
    have hlater : ∀ t ∈ (p.resume n i).turns rest, Inv t.before → Inv t.after := fun t ht =>
      hturns t (mem_append_right _ ht)
    refine ih (p.resume n i) hlater ?_
    cases hturn : p.turn? n i with
    | none => rwa [resume_of_turn?_eq_none p n i hturn]
    | some turn =>
      have hstep := hturns turn (mem_append_left _ (by simp [hturn]))
      obtain ⟨hbefore, hafter⟩ := turn?_shared hturn
      rw [hbefore, hafter] at hstep
      exact hstep h

/-- A measure that no executed block lowers orders the executed blocks in time. -/
theorem turns_ordered (μ : σ → ℕ) (p : Pool σ ι L ε α) (schedule : List (ℕ × ι))
    (hturns : ∀ t ∈ p.turns schedule, μ t.before ≤ μ t.after) :
    (∀ t ∈ p.turns schedule, μ p.shared ≤ μ t.before) ∧
      (p.turns schedule).Pairwise fun t u => μ t.after ≤ μ u.before := by
  induction schedule generalizing p with
  | nil => simp [turns]
  | cons entry rest ih =>
    obtain ⟨n, i⟩ := entry
    obtain ⟨hstart, hchain⟩ := ih (p.resume n i) fun t ht =>
      hturns t (mem_append_right _ ht)
    cases hturn : p.turn? n i with
    | none =>
      rw [resume_of_turn?_eq_none p n i hturn] at hstart hchain
      simpa [turns, hturn, resume_of_turn?_eq_none p n i hturn] using And.intro hstart hchain
    | some turn =>
      obtain ⟨hbefore, hafter⟩ := turn?_shared hturn
      have hfirst := hturns turn (mem_append_left _ (by simp [hturn]))
      simp only [turns, hturn, Option.toList_some, singleton_append, mem_cons,
        pairwise_cons, forall_eq_or_imp]
      rw [← hafter] at hstart
      rw [← hbefore]
      exact ⟨⟨Nat.le_refl _, fun t ht => Nat.le_trans hfirst (hstart t ht)⟩, hstart, hchain⟩

/-- Of two different executed blocks one runs before the other. -/
theorem turns_comparable (μ : σ → ℕ) {p : Pool σ ι L ε α} {schedule : List (ℕ × ι)}
    (hturns : ∀ t ∈ p.turns schedule, μ t.before ≤ μ t.after) {t u : Turn σ ι L}
    (ht : t ∈ p.turns schedule) (hu : u ∈ p.turns schedule) (hne : t ≠ u) :
    μ t.after ≤ μ u.before ∨ μ u.after ≤ μ t.before := by
  let Comparable (t u : Turn σ ι L) : Prop := μ t.after ≤ μ u.before ∨ μ u.after ≤ μ t.before
  have hsymm : Std.Symm Comparable := ⟨fun _ _ h => h.symm⟩
  have hchain : (p.turns schedule).Pairwise Comparable :=
    (turns_ordered μ p schedule hturns).2.imp fun h => .inl h
  exact hchain.forall ht hu hne

end Pool

end Pool

end FinDashboard.Async
