import Mathlib.Algebra.BigOperators.Group.List.Basic
import Mathlib.Tactic.Abel

/-!
# Loops over bars

A loop takes one step for each bar, in order, and appends to logs. After `n` bars its state depends on
the first `n` steps only, and what a log holds by then stays at its front.
-/

namespace FinDashboard.Runs

open List

section Bars

variable {σ β : Type}

/-- The state after the first `n` bars. -/
def afterBars (step : ℕ → σ → σ) (s : σ) : ℕ → σ
  | 0 => s
  | n + 1 => step n (afterBars step s n)

variable {step other : ℕ → σ → σ} {s : σ}

@[simp] theorem afterBars_zero : afterBars step s 0 = s := rfl

theorem afterBars_succ (n : ℕ) : afterBars step s (n + 1) = step n (afterBars step s n) := rfl

/-- Steps that agree on the bars so far reach the same state. -/
theorem afterBars_congr {n : ℕ} (same : ∀ k < n, ∀ t, step k t = other k t) :
    afterBars step s n = afterBars other s n := by
  induction n with
  | zero => rfl
  | succ n ih =>
    have before := ih fun k early => same k (by omega)
    calc
      afterBars step s (n + 1) = step n (afterBars step s n) := rfl
      _ = other n (afterBars other s n) := by rw [before, same n (by omega)]

/-- What every bar keeps holds after any number of bars. -/
theorem afterBars_invariant {Inv : ℕ → σ → Prop} (start : Inv 0 s)
    (keeps : ∀ k t, Inv k t → Inv (k + 1) (step k t)) (n : ℕ) : Inv n (afterBars step s n) := by
  induction n with
  | zero => exact start
  | succ n ih => exact keeps n _ ih

/-- What the bars of a run keep, as long as each of them meets its condition, holds in every state the
run reaches. -/
theorem afterBars_guarded {Inv : ℕ → σ → Prop} {allowed : ℕ → σ → Prop} {n : ℕ} (start : Inv 0 s)
    (guarded : ∀ k < n, allowed k (afterBars step s k))
    (keeps : ∀ k t, Inv k t → allowed k t → Inv (k + 1) (step k t)) :
    ∀ k ≤ n, Inv k (afterBars step s k) := by
  intro k early
  induction k with
  | zero => exact start
  | succ k ih => exact keeps k _ (ih (by omega)) (guarded k (by omega))

theorem afterBars_grows {log : σ → List β} (grows : ∀ k t, log t <+: log (step k t)) {m n : ℕ}
    (before : m ≤ n) : log (afterBars step s m) <+: log (afterBars step s n) := by
  induction n with
  | zero =>
    obtain rfl : m = 0 := by omega
    exact prefix_rfl
  | succ n ih =>
    rcases Nat.eq_or_lt_of_le before with rfl | earlier
    · exact prefix_rfl
    · exact (ih (by omega)).trans (grows n _)

end Bars

/-!
## Dated logs

A loop over bars appends entries dated by the bar that writes them. What the log of a whole run holds up
to a date is then the log after the bar of that date.
-/

section Dated

variable {σ α β : Type} {date : β → ℕ} {k : ℕ}

/-- A log has only been appended to, by entries of one date. -/
def AppendedAt (date : β → ℕ) (k : ℕ) (before after : List β) : Prop :=
  ∃ added, after = before ++ added ∧ ∀ entry ∈ added, date entry = k

namespace AppendedAt

theorem refl (entries : List β) : AppendedAt date k entries entries :=
  ⟨[], (append_nil _).symm, nofun⟩

theorem one (entries : List β) {entry : β} (dated : date entry = k) :
    AppendedAt date k entries (entries ++ [entry]) := by
  refine ⟨[entry], rfl, ?_⟩
  intro other member
  rw [mem_singleton.mp member, dated]

theorem trans {first second third : List β} (before : AppendedAt date k first second)
    (after : AppendedAt date k second third) : AppendedAt date k first third := by
  obtain ⟨added, grown, dated⟩ := before
  obtain ⟨added', grown', dated'⟩ := after
  refine ⟨added ++ added', by rw [grown', grown, append_assoc], ?_⟩
  intro entry member
  rcases mem_append.mp member with old | new
  · exact dated entry old
  · exact dated' entry new

/-- A fold whose steps append at a date appends at that date. -/
theorem foldl {step : σ → α → σ} (log : σ → List β)
    (each : ∀ t item, AppendedAt date k (log t) (log (step t item))) (items : List α) (s : σ) :
    AppendedAt date k (log s) (log (items.foldl step s)) := by
  induction items generalizing s with
  | nil => exact refl (log s)
  | cons item rest ih => exact (each s item).trans (ih (step s item))

end AppendedAt

section Runs

variable {step : ℕ → σ → σ} {s : σ} (log : σ → List β)

theorem date_lt_of_mem (empty : log s = []) (dated : ∀ k t, AppendedAt date k (log t) (log (step k t)))
    (n : ℕ) : ∀ entry ∈ log (afterBars step s n), date entry < n := by
  induction n with
  | zero =>
    rw [afterBars_zero, empty]
    nofun
  | succ n ih =>
    intro entry member
    obtain ⟨added, grown, here⟩ := dated n (afterBars step s n)
    rw [afterBars_succ, grown] at member
    rcases mem_append.mp member with old | new
    · have earlier := ih entry old
      omega
    · rw [here entry new]
      omega

theorem later_dates (dated : ∀ k t, AppendedAt date k (log t) (log (step k t))) {m n : ℕ}
    (before : m ≤ n) : ∃ later, log (afterBars step s n) = log (afterBars step s m) ++ later ∧
      ∀ entry ∈ later, m ≤ date entry := by
  induction n with
  | zero =>
    obtain rfl : m = 0 := by omega
    exact ⟨[], (append_nil _).symm, nofun⟩
  | succ n ih =>
    rcases Nat.eq_or_lt_of_le before with rfl | earlier
    · exact ⟨[], (append_nil _).symm, nofun⟩
    · obtain ⟨later, grown, after⟩ := ih (by omega)
      obtain ⟨added, more, here⟩ := dated n (afterBars step s n)
      refine ⟨later ++ added, ?_, ?_⟩
      · rw [← append_assoc, ← grown]
        exact more
      · intro entry member
        rcases mem_append.mp member with old | new
        · exact after entry old
        · rw [here entry new]
          omega

theorem filter_date_le (empty : log s = [])
    (dated : ∀ k t, AppendedAt date k (log t) (log (step k t))) {k n : ℕ} (past : k < n) :
    (log (afterBars step s n)).filter (fun entry => date entry ≤ k) = log (afterBars step s (k + 1)) := by
  obtain ⟨later, grown, after⟩ := later_dates (s := s) log dated (Nat.succ_le_of_lt past)
  have first : (log (afterBars step s (k + 1))).filter (fun entry => date entry ≤ k) =
      log (afterBars step s (k + 1)) := by
    apply filter_eq_self.mpr
    intro entry member
    have early := date_lt_of_mem log empty dated (k + 1) entry member
    exact decide_eq_true (by omega)
  have rest : later.filter (fun entry => date entry ≤ k) = [] := by
    apply filter_eq_nil_iff.mpr
    intro entry member
    have late := after entry member
    simp only [decide_eq_true_eq]
    omega
  rw [grown, filter_append, first, rest, append_nil]

end Runs

end Dated

/-!
## Folds that add to a measure

Each step of a fold adds an amount to a measure of the state. Where the amounts do not depend on the
steps before, the whole fold adds their sum.
-/

variable {σ α ι M : Type}

/-- A fold adds up what its steps add, as long as no step changes what a later one adds. -/
theorem foldl_measure [AddMonoid M] {step : σ → α → σ} (Inv : σ → Prop) (measure : σ → M)
    (amount : σ → α → M) {items : List α} {s : σ} (start : Inv s) (adds : ∀ t, Inv t → ∀ item ∈ items,
      Inv (step t item) ∧ measure (step t item) = measure t + amount t item)
    (apart : items.Pairwise fun first second => ∀ t, amount (step t first) second = amount t second) :
    Inv (items.foldl step s) ∧ measure (items.foldl step s) = measure s + (items.map (amount s)).sum := by
  induction items generalizing s with
  | nil => exact ⟨start, (add_zero _).symm⟩
  | cons item rest ih =>
    obtain ⟨unaffected, later⟩ := pairwise_cons.mp apart
    obtain ⟨kept, added⟩ := adds s start item mem_cons_self
    obtain ⟨final, total⟩ := ih kept
      (fun t inv other member => adds t inv other (mem_cons_of_mem item member)) later
    have same := map_congr_left fun other member => unaffected other member s
    refine ⟨final, ?_⟩
    calc
      measure (rest.foldl step (step s item))
          = measure (step s item) + (rest.map (amount (step s item))).sum := total
      _ = measure s + amount s item + (rest.map (amount s)).sum := by rw [added, same]
      _ = measure s + ((item :: rest).map (amount s)).sum := by
        rw [map_cons, sum_cons, add_assoc]

/-- A fold appends to a log what its steps append, as long as no step changes what a later one
appends. -/
theorem foldl_log {β : Type} {step : σ → α → σ} {log : σ → List β} {added : σ → α → List β}
    {items : List α} {s : σ} (adds : ∀ t, ∀ item ∈ items, log (step t item) = log t ++ added t item)
    (apart : items.Pairwise fun first second => ∀ t, added (step t first) second = added t second) :
    log (items.foldl step s) = log s ++ items.flatMap (added s) := by
  induction items generalizing s with
  | nil => exact (append_nil _).symm
  | cons item rest ih =>
    obtain ⟨unaffected, later⟩ := pairwise_cons.mp apart
    have total := ih (s := step s item)
      (fun t other member => adds t other (mem_cons_of_mem item member)) later
    have same := flatMap_congr fun other member => unaffected other member s
    rw [foldl_cons, total, adds s item mem_cons_self, same, flatMap_cons, append_assoc]

theorem sum_map_change [AddCommGroup M] {f g : ι → M} {key : ι} {keys : List ι} (nodup : keys.Nodup)
    (member : key ∈ keys) (others : ∀ other, other ≠ key → f other = g other) :
    (keys.map f).sum = (keys.map g).sum + (f key - g key) := by
  induction keys with
  | nil => cases member
  | cons first rest ih =>
    obtain ⟨fresh, distinct⟩ := nodup_cons.mp nodup
    rw [map_cons, sum_cons, map_cons, sum_cons]
    rcases mem_cons.mp member with rfl | later
    · have same := map_congr_left fun other inside => others other fun equal => fresh (equal ▸ inside)
      rw [same]
      abel
    · have elsewhere := others first fun equal => fresh (equal ▸ later)
      rw [ih distinct later, elsewhere, add_assoc]

end FinDashboard.Runs
