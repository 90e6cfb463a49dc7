import FinDashboard.Async.Coroutine

/-!
# Rely–guarantee reasoning for coroutines

`Safe` describes one task among others: whatever the other tasks do within the rely
relation between two of its blocks, each of its own blocks stays within the guarantee for
its label, and its result satisfies the postcondition. Only blocks that meet
the condition `Ok` are considered.

When the guarantee of every task is contained in the rely of every other, the judgements
of the initial programs hold for the remaining programs of every interleaving.
-/

namespace FinDashboard.Async

section Rely

variable {σ ι L ε α β : Type}

/-- The rely–guarantee judgement for the remaining program of a task in a shared state. -/
def Safe (Ok : L → ι → σ → Prop) (R : σ → σ → Prop)
    (G : L → ι → σ → σ → Prop) (Q : Except ε α → σ → Prop) :
    Coroutine σ ι L ε α → σ → Prop
  | .pure a, s => ∀ s', R s s' → Q (.ok a) s'
  | .throw e, s => ∀ s', R s s' → Q (.error e) s'
  | .await l block next, s => ∀ s', R s s' → ∀ i, Ok l i s' →
      G l i s' (block i s') ∧ Safe Ok R G Q (next i s') (block i s')

variable {s : σ}

namespace Safe

variable {Ok Ok' : L → ι → σ → Prop} {R R' : σ → σ → Prop} {G G' : L → ι → σ → σ → Prop}
  {Q Q' : Except ε α → σ → Prop}

/-- Interference within the rely relation does not invalidate a judgement. -/
theorem rely (htrans : ∀ a b c, R a b → R b c → R a c) {p : Coroutine σ ι L ε α} {s t : σ}
    (h : Safe Ok R G Q p s) (hst : R s t) : Safe Ok R G Q p t := by
  cases p with
  | pure a => exact fun u hu => h u (htrans _ _ _ hst hu)
  | throw e => exact fun u hu => h u (htrans _ _ _ hst hu)
  | await l block next => exact fun u hu => h u (htrans _ _ _ hst hu)

/-- The rule of consequence: fewer runs, less interference, weaker promises. -/
theorem mono (hOk : ∀ l i s, Ok' l i s → Ok l i s) (hR : ∀ s s', R' s s' → R s s')
    (hG : ∀ l i s s', Ok' l i s → G l i s s' → G' l i s s') (hQ : ∀ r s, Q r s → Q' r s)
    {p : Coroutine σ ι L ε α} (h : Safe Ok R G Q p s) : Safe Ok' R' G' Q' p s := by
  induction p generalizing s with
  | pure a => exact fun u hu => hQ _ _ (h u (hR _ _ hu))
  | throw e => exact fun u hu => hQ _ _ (h u (hR _ _ hu))
  | await l block next ih =>
    intro u hu i hi
    obtain ⟨hblock, hnext⟩ := h u (hR _ _ hu) i (hOk _ _ _ hi)
    exact ⟨hG _ _ _ _ hi hblock, ih i u hnext⟩

/-- A predicate kept by the blocks of the task and by its environment holds throughout. -/
theorem invariant {I : σ → Prop} (hrely : ∀ s s', R s s' → I s → I s')
    (hblock : ∀ l i s s', Ok l i s → I s → G l i s s' → I s') {p : Coroutine σ ι L ε α}
    (h : Safe Ok R G Q p s) (hs : I s) :
    Safe Ok R (fun l i s s' => G l i s s' ∧ I s') (fun r s => Q r s ∧ I s) p s := by
  induction p generalizing s with
  | pure a => exact fun u hu => ⟨h u hu, hrely _ _ hu hs⟩
  | throw e => exact fun u hu => ⟨h u hu, hrely _ _ hu hs⟩
  | await l block next ih =>
    intro u hu i hi
    obtain ⟨hG, hnext⟩ := h u hu i hi
    have hafter := hblock l i u _ hi (hrely _ _ hu hs) hG
    exact ⟨⟨hG, hafter⟩, ih i u hnext hafter⟩

/-- The rule of sequencing, in continuation form. -/
theorem bind (hrefl : ∀ s, R s s) {Q : Except ε β → σ → Prop} {p : Coroutine σ ι L ε α}
    {f : α → Coroutine σ ι L ε β}
    (h : Safe Ok R G (fun r t => match r with
      | .ok a => Safe Ok R G Q (f a) t
      | .error e => Safe Ok R G Q (.throw e) t) p s) :
    Safe Ok R G Q (p >>= f) s := by
  change Safe Ok R G Q (p.bind f) s
  induction p generalizing s with
  | pure a => exact h s (hrefl s)
  | throw e => exact h s (hrefl s)
  | await l block next ih =>
    intro u hu i hi
    obtain ⟨hG, hnext⟩ := h u hu i hi
    exact ⟨hG, ih i u hnext⟩

/-- Sequencing without a condition between the two parts. -/
theorem bind_any (hrefl : ∀ s, R s s) {p : Coroutine σ ι L ε α} {f : α → Coroutine σ ι L ε β}
    {Q : Except ε β → σ → Prop} (h : Safe Ok R G (fun _ _ => True) p s)
    (hf : ∀ a t, Safe Ok R G Q (f a) t) (he : ∀ e t, Q (.error e) t) : Safe Ok R G Q (p >>= f) s := by
  refine bind hrefl (mono (fun _ _ _ h => h) (fun _ _ h => h) (fun _ _ _ _ _ h => h) ?_ h)
  intro result t _
  cases result with
  | ok a => exact hf a t
  | error e => exact fun u _ => he e u

/-- The rule of exception handling, in continuation form. -/
theorem tryCatch (hrefl : ∀ s, R s s) {p : Coroutine σ ι L ε α}
    {handler : ε → Coroutine σ ι L ε α}
    (h : Safe Ok R G (fun r t => match r with
      | .ok a => Safe Ok R G Q (.pure a) t
      | .error e => Safe Ok R G Q (handler e) t) p s) :
    Safe Ok R G Q (p.tryCatch handler) s := by
  induction p generalizing s with
  | pure a => exact h s (hrefl s)
  | throw e => exact h s (hrefl s)
  | await l block next ih =>
    intro u hu i hi
    obtain ⟨hG, hnext⟩ := h u hu i hi
    exact ⟨hG, ih i u hnext⟩

/-- One block: its effect is guaranteed and its outcome satisfies the postcondition. -/
theorem atomically {l : L} {body : ι → Block σ ε α} (h : ∀ t, R s t → ∀ i, Ok l i t →
      G l i t ((body i).exec t).2 ∧ ∀ u, R ((body i).exec t).2 u → Q ((body i).exec t).1 u) :
    Safe Ok R G Q (Coroutine.atomically l body) s := by
  intro t ht i hi
  obtain ⟨hG, hQ⟩ := h t ht i hi
  refine ⟨hG, ?_⟩
  change Safe Ok R G Q (Coroutine.ofExcept ((body i).exec t).1) ((body i).exec t).2
  cases hr : ((body i).exec t).1 with
  | ok a => rw [hr] at hQ; exact hQ
  | error e => rw [hr] at hQ; exact hQ

/-- One block followed by the rest of the program. -/
theorem atomically_bind {l : L} {body : ι → Block σ ε α} {f : α → Coroutine σ ι L ε β}
    {Q : Except ε β → σ → Prop}
    (h : ∀ t, R s t → ∀ i, Ok l i t → G l i t ((body i).exec t).2 ∧
        match ((body i).exec t).1 with
        | .ok a => Safe Ok R G Q (f a) ((body i).exec t).2
        | .error e => Safe Ok R G Q (.throw e) ((body i).exec t).2) :
    Safe Ok R G Q (Coroutine.atomically l body >>= f) s := by
  intro t ht i hi
  obtain ⟨hG, hQ⟩ := h t ht i hi
  refine ⟨hG, ?_⟩
  change Safe Ok R G Q ((Coroutine.ofExcept ((body i).exec t).1).bind f)
    ((body i).exec t).2
  cases hr : ((body i).exec t).1 with
  | ok a => rw [hr] at hQ; exact hQ
  | error e => rw [hr] at hQ; exact hQ

end Safe

/-- What one task of a pool relies on, guarantees and establishes. -/
structure Contract (σ ι L ε α : Type) where
  rely : σ → σ → Prop
  guar : L → ι → σ → σ → Prop
  post : Except ε α → σ → Prop
  rely_refl : ∀ s, rely s s
  rely_trans : ∀ a b c, rely a b → rely b c → rely a c

/-- The task satisfies its contract in the given shared state. -/
def Contract.Holds (C : Contract σ ι L ε α) (Ok : L → ι → σ → Prop) (p : Coroutine σ ι L ε α)
    (s : σ) : Prop := Safe Ok C.rely C.guar C.post p s

namespace Pool

variable {Ok : L → ι → σ → Prop} {C : ℕ → Contract σ ι L ε α}

/-- Every task of the pool satisfies its contract. -/
def Safe (C : ℕ → Contract σ ι L ε α) (Ok : L → ι → σ → Prop) (p : Pool σ ι L ε α) : Prop :=
  ∀ n t, p.tasks[n]? = some t → (C n).Holds Ok t p.shared

/-- One turn: the resumed task advances its judgement, the others rely on its guarantee. -/
theorem Safe.resume (hcompat : ∀ n m, n ≠ m → ∀ l i s s', (C n).guar l i s s' → (C m).rely s s')
    {p : Pool σ ι L ε α} (h : p.Safe C Ok) (n : ℕ) (i : ι)
    (hok : ∀ t ∈ p.turn? n i, Ok t.label t.reply t.before) : (p.resume n i).Safe C Ok ∧
      ∀ t ∈ p.turn? n i, (C n).guar t.label t.reply t.before t.after := by
  cases hturn : p.turn? n i with
  | none =>
    rw [resume_of_turn?_eq_none p n i hturn]
    exact ⟨h, by simp⟩
  | some turn =>
    obtain ⟨l, block, next, htask⟩ :
        ∃ l block next, p.tasks[n]? = some (.await l block next) := by
      unfold turn? at hturn
      split at hturn
      · rename_i l block next htask
        exact ⟨l, block, next, htask⟩
      · contradiction
    rw [turn?_of_await p n i htask] at hturn hok
    obtain rfl := Option.some.inj hturn
    have hblock := h n _ htask p.shared ((C n).rely_refl _) i (hok _ rfl)
    refine ⟨?_, fun t ht => ?_⟩
    · rw [resume_of_await p n i htask]
      intro m t hm
      by_cases hnm : n = m
      · subst hnm
        have hlt := (List.getElem?_eq_some_iff.mp htask).1
        rw [List.getElem?_set_self hlt] at hm
        obtain rfl := Option.some.inj hm
        exact hblock.2
      · rw [List.getElem?_set_ne hnm] at hm
        exact Async.Safe.rely (C m).rely_trans (h m t hm) (hcompat n m hnm _ _ _ _ hblock.1)
    · obtain rfl := Option.mem_some_iff.mp ht
      exact hblock.1

/-- Contracts hold along every interleaving, and every executed block is guaranteed. -/
theorem Safe.exec (hcompat : ∀ n m, n ≠ m → ∀ l i s s', (C n).guar l i s s' → (C m).rely s s')
    {p : Pool σ ι L ε α} (h : p.Safe C Ok) (schedule : List (ℕ × ι)) (hok : p.Admits Ok schedule) :
    (p.exec schedule).Safe C Ok ∧
      ∀ t ∈ p.turns schedule, (C t.task).guar t.label t.reply t.before t.after := by
  induction schedule generalizing p with
  | nil => exact ⟨h, by simp [turns]⟩
  | cons entry rest ih =>
    obtain ⟨n, i⟩ := entry
    have hhead : ∀ t ∈ p.turn? n i, Ok t.label t.reply t.before := fun t ht =>
      hok t (List.mem_append_left _ (by simpa using ht))
    obtain ⟨hsafe, hguar⟩ := Safe.resume hcompat h n i hhead
    obtain ⟨hend, hturns⟩ := ih hsafe fun t ht => hok t (List.mem_append_right _ ht)
    refine ⟨hend, fun t ht => ?_⟩
    rcases List.mem_append.mp ht with hcur | hlater
    · have hcur' : p.turn? n i = some t := by simpa using hcur
      have htask : t.task = n := by
        unfold turn? at hcur'
        split at hcur'
        · exact (congrArg Turn.task (Option.some.inj hcur')).symm
        · contradiction
      rw [htask]
      exact hguar t hcur'
    · exact hturns t hlater

/-- A finished task has established its postcondition. -/
theorem Safe.result {p : Pool σ ι L ε α} (h : p.Safe C Ok) {n : ℕ} {result : Except ε α}
    (hdone : p.result? n = some result) : (C n).post result p.shared := by
  have hend := h n _ (tasks_of_result? hdone)
  cases result with
  | ok a => exact hend _ ((C n).rely_refl _)
  | error e => exact hend _ ((C n).rely_refl _)

/-- A task that is alone in its pool runs to its postcondition without interference. -/
theorem result_of_safe_alone {G : L → ι → σ → σ → Prop} {Q : Except ε α → σ → Prop}
    {task : Coroutine σ ι L ε α} (h : Async.Safe Ok Eq G Q task s) {schedule : List (ℕ × ι)}
    (hok : (⟨s, [task]⟩ : Pool σ ι L ε α).Admits Ok schedule) {result : Except ε α}
    (hdone : ((⟨s, [task]⟩ : Pool σ ι L ε α).exec schedule).result? 0 = some result) :
    Q result ((⟨s, [task]⟩ : Pool σ ι L ε α).exec schedule).shared := by
  -- the absent tasks get contracts that any task is compatible with
  let alone : ℕ → Contract σ ι L ε α
    | 0 => ⟨Eq, G, Q, fun _ => rfl, fun _ _ _ => Eq.trans⟩
    | _ + 1 => ⟨fun _ _ => True, fun _ _ => Eq, fun _ _ => True, fun _ => trivial,
        fun _ _ _ _ _ => trivial⟩
  have hcompat : ∀ n m, n ≠ m → ∀ l i s s', (alone n).guar l i s s' → (alone m).rely s s' := by
    rintro (_ | n) (_ | m) hnm l i s s' hguar
    · exact absurd rfl hnm
    · trivial
    · exact hguar
    · trivial
  have hstart : (⟨s, [task]⟩ : Pool σ ι L ε α).Safe alone Ok := by
    rintro (_ | n) t ht
    · obtain rfl : task = t := by simpa using ht
      exact h
    · simp at ht
  exact (Safe.exec hcompat hstart schedule hok).1.result hdone

end Pool

end Rely

/-!
## What holds of every block of a coroutine

`Everywhere` says that each block a coroutine can still run meets a condition, whatever state it
starts from and whatever reply it gets. It needs no account of the other tasks.
-/

section Blocks

variable {σ ι L L' ε α β : Type}

namespace Block

/-- The block relates the state it starts from to the one it leaves, also when it raises. -/
def Follows (R : σ → σ → Prop) (block : Block σ ε α) : Prop := ∀ s, R s (block.exec s).2

namespace Follows

variable {R : σ → σ → Prop}

theorem ret (refl : ∀ s, R s s) (a : α) : Follows R (pure a : Block σ ε α) := fun s => refl s

theorem raise (refl : ∀ s, R s s) (e : ε) : Follows R (throw e : Block σ ε α) := fun s => refl s

theorem bind (trans : ∀ {s t u}, R s t → R t u → R s u) {block : Block σ ε α} {next : α → Block σ ε β}
    (first : Follows R block) (rest : ∀ a, Follows R (next a)) : Follows R (block >>= next) := by
  intro s
  have before := first s
  rw [exec_bind]
  rcases done : block.exec s with ⟨_ | a, t⟩
  · rwa [done] at before
  · rw [done] at before
    exact trans before (rest a t)

theorem cond {c : Prop} [Decidable c] {yes no : Block σ ε α} (one : Follows R yes)
    (other : Follows R no) : Follows R (if c then yes else no) := by
  split
  · exact one
  · exact other

end Follows

end Block

namespace Coroutine

/-- Every block of the coroutine meets the condition. -/
def Everywhere (P : L → ι → σ → σ → Prop) : Coroutine σ ι L ε α → Prop
  | .pure _ => True
  | .throw _ => True
  | .await label block next =>
    ∀ i s, P label i s (block i s) ∧ Everywhere P (next i s)

variable {P Q : L → ι → σ → σ → Prop} {c : Coroutine σ ι L ε α}

namespace Everywhere

theorem mono (weaker : ∀ l i s s', P l i s s' → Q l i s s') (all : Everywhere P c) : Everywhere Q c := by
  induction c with
  | pure a => trivial
  | throw e => trivial
  | await label block next ih =>
    intro i s
    obtain ⟨now, later⟩ := all i s
    exact ⟨weaker _ _ _ _ now, ih i s later⟩

theorem bind {f : α → Coroutine σ ι L ε β} (first : Everywhere P c)
    (rest : ∀ a, Everywhere P (f a)) : Everywhere P (c >>= f) := by
  change Everywhere P (c.bind f)
  induction c with
  | pure a => exact rest a
  | throw e => trivial
  | await label block next ih =>
    intro i s
    obtain ⟨now, later⟩ := first i s
    exact ⟨now, ih i s later⟩

theorem tryCatch {handler : ε → Coroutine σ ι L ε α} (first : Everywhere P c)
    (rest : ∀ e, Everywhere P (handler e)) : Everywhere P (c.tryCatch handler) := by
  induction c with
  | pure a => trivial
  | throw e => exact rest e
  | await label block next ih =>
    intro i s
    obtain ⟨now, later⟩ := first i s
    exact ⟨now, ih i s later⟩

theorem ofExcept (result : Except ε α) : Everywhere P (ofExcept result : Coroutine σ ι L ε α) := by
  cases result <;> trivial

theorem atomically {label : L} {body : ι → Block σ ε α}
    (now : ∀ i s, P label i s ((body i).exec s).2) : Everywhere P (atomically label body) :=
  fun i s => ⟨now i s, ofExcept _⟩

end Everywhere

/-- A relation that every block keeps holds over a whole run. -/
theorem Everywhere.run {R : σ → σ → Prop} (refl : ∀ s, R s s) (trans : ∀ {s t u}, R s t → R t u → R s u)
    (all : Everywhere (fun _ _ s s' => R s s') c) (answer : L → σ → ι) (s : σ) :
    R s (c.run answer s).2 := by
  induction c generalizing s with
  | pure a => exact refl s
  | throw e => exact refl s
  | await label block next ih =>
    obtain ⟨now, later⟩ := all (answer label s) s
    exact trans now (ih (answer label s) s later (block (answer label s) s))

/-- Interference does not matter for what holds of every block. -/
theorem Everywhere.safe {Ok : L → ι → σ → Prop} {R : σ → σ → Prop}
    (all : Everywhere P c) (s : σ) : Safe Ok R P (fun _ _ => True) c s := by
  induction c generalizing s with
  | pure a => exact fun _ _ => trivial
  | throw e => exact fun _ _ => trivial
  | await label block next ih =>
    intro t _ i _
    obtain ⟨now, later⟩ := all i t
    exact ⟨now, ih i t later (block i t)⟩

def relabel (f : L → L') : Coroutine σ ι L ε α → Coroutine σ ι L' ε α
  | .pure a => .pure a
  | .throw e => .throw e
  | .await label block next => .await (f label) block fun i s => (next i s).relabel f

theorem Everywhere.relabel {f : L → L'} {P : L' → ι → σ → σ → Prop}
    (all : Everywhere (fun l => P (f l)) c) : Everywhere P (c.relabel f) := by
  induction c with
  | pure a => trivial
  | throw e => trivial
  | await label block next ih =>
    intro i s
    obtain ⟨now, later⟩ := all i s
    exact ⟨now, ih i s later⟩

theorem relabel_eq_await {f : L → L'} {label : L'} {block : ι → σ → σ}
    {next : ι → σ → Coroutine σ ι L' ε α} (same : .await label block next = c.relabel f) :
    ∃ l rest, c = .await l block rest ∧ label = f l ∧ ∀ i s, next i s = (rest i s).relabel f := by
  cases c with
  | pure a => cases same
  | throw e => cases same
  | await l inner rest =>
    obtain ⟨rfl, rfl, rfl⟩ := await.inj same
    exact ⟨l, rest, rfl, rfl, fun _ _ => rfl⟩

end Coroutine

namespace Pool

variable {p : Pool σ ι L ε α} {n : ℕ}

theorem mem_turn? {i : ι} {t : Turn σ ι L} (taken : t ∈ p.turn? n i) :
    ∃ block next, p.tasks[n]? = some (.await t.label block next) ∧ t.task = n := by
  unfold turn? at taken
  split at taken
  · rename_i l block next found
    obtain rfl := Option.some.inj taken
    exact ⟨block, next, found, rfl⟩
  · cases taken

/-- A property of the task that is resumed and one of the shared state, kept by every turn. -/
theorem exec_tasks (Inv : σ → Prop) (Ok : ℕ → Coroutine σ ι L ε α → Prop)
    (keeps : ∀ m label block next i s, Ok m (.await label block next) → Inv s →
      Inv (block i s) ∧ Ok m (next i s)) (schedule : List (ℕ × ι)) (start : Inv p.shared)
    (tasks : ∀ m c, p.tasks[m]? = some c → Ok m c) :
    (Inv (p.exec schedule).shared ∧ ∀ m c, (p.exec schedule).tasks[m]? = some c → Ok m c) ∧
      ∀ t ∈ p.turns schedule, ∃ block next, Ok t.task (.await t.label block next) := by
  induction schedule generalizing p with
  | nil => exact ⟨⟨start, tasks⟩, nofun⟩
  | cons entry rest ih =>
    obtain ⟨n, i⟩ := entry
    have resumed : Inv (p.resume n i).shared ∧
        ∀ m c, (p.resume n i).tasks[m]? = some c → Ok m c := by
      cases found : p.tasks[n]? with
      | none => simpa only [resume, found] using And.intro start tasks
      | some task =>
        cases task with
        | pure a => simpa only [resume, found] using And.intro start tasks
        | throw e => simpa only [resume, found] using And.intro start tasks
        | await label block next =>
          obtain ⟨shared, program⟩ := keeps n label block next i p.shared (tasks n _ found) start
          rw [resume_of_await p n i found]
          refine ⟨shared, fun m c there => ?_⟩
          by_cases same : n = m
          · subst same
            have inside := (List.getElem?_eq_some_iff.mp found).1
            rw [List.getElem?_set_self inside] at there
            obtain rfl := Option.some.inj there
            exact program
          · rw [List.getElem?_set_ne same] at there
            exact tasks m c there
    obtain ⟨final, turns⟩ := ih resumed.1 resumed.2
    refine ⟨final, fun t taken => ?_⟩
    rcases List.mem_append.mp taken with now | later
    · obtain ⟨block, next, found, task⟩ := mem_turn? (Option.mem_toList.mp now)
      rw [task]
      exact ⟨block, next, tasks n _ found⟩
    · exact turns t later

end Pool

end Blocks

end FinDashboard.Async
