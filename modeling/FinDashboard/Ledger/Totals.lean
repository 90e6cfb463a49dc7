import FinDashboard.Ledger.Dictionary
import Mathlib.Algebra.Order.BigOperators.Group.List
import Mathlib.Tactic.Abel

/-!
# Totals over rows

A ledger column is the total of a weight over the rows of a table. These are the rules for
the changes a table undergoes: appending a row, rewriting rows in place, and lowering the
weight of one row by at least a given amount.
-/

namespace FinDashboard.Ledger

open List

section Rows

variable {α M : Type*} [AddCommMonoid M]

def total (weight : α → M) (rows : List α) : M := (rows.map weight).sum

variable (weight : α → M)

@[simp] theorem total_nil : total weight [] = 0 := rfl

@[simp] theorem total_cons (row : α) (rows : List α) :
    total weight (row :: rows) = weight row + total weight rows := by
  simp [total]

theorem total_append (rows rows' : List α) :
    total weight (rows ++ rows') = total weight rows + total weight rows' := by
  simp [total]

theorem total_map (change : α → α) (rows : List α) :
    total weight (rows.map change) = total (fun row => weight (change row)) rows := by
  simp [total, Function.comp_def]

variable {rows : List α}

theorem total_congr {weight weight' : α → M}
    (h : ∀ row ∈ rows, weight row = weight' row) : total weight rows = total weight' rows := by
  unfold total
  rw [map_congr_left h]

theorem total_perm {weight : α → M} {rows rows' : List α} (h : rows.Perm rows') :
    total weight rows = total weight rows' := by
  exact (h.map weight).sum_eq

theorem total_filter_weightless {weight : α → M} {keep : α → Bool}
    (weightless : ∀ row ∈ rows, keep row = false → weight row = 0) :
    total weight (rows.filter keep) = total weight rows := by
  induction rows with
  | nil => rfl
  | cons row rows ih =>
    have later := ih fun other member => weightless other (mem_cons_of_mem _ member)
    cases kept : keep row with
    | true => rw [filter_cons_of_pos kept, total_cons, total_cons, later]
    | false =>
      rw [filter_cons_of_neg (by simp [kept]), total_cons, later,
        weightless row mem_cons_self kept, zero_add]

theorem total_zero {weight : α → M} (h : ∀ row ∈ rows, weight row = 0) : total weight rows = 0 := by
  rw [total_congr h]
  simp [total]

variable [PartialOrder M] [IsOrderedAddMonoid M]

theorem total_le_total {weight weight' : α → M}
    (h : ∀ row ∈ rows, weight row ≤ weight' row) : total weight rows ≤ total weight' rows := by
  induction rows with
  | nil => exact le_refl _
  | cons row rest ih =>
    rw [total_cons, total_cons]
    exact add_le_add (h row mem_cons_self) (ih fun r hr => h r (mem_cons_of_mem _ hr))

/-- If no row gains weight and one row loses at least `d`, so does the total. -/
theorem total_add_le_total {weight weight' : α → M} {row : α} {d : M}
    (h : ∀ row ∈ rows, weight row ≤ weight' row) (hmem : row ∈ rows)
    (hrow : weight row + d ≤ weight' row) : total weight rows + d ≤ total weight' rows := by
  induction rows with
  | nil => cases hmem
  | cons first rest ih =>
    have hrest : ∀ r ∈ rest, weight r ≤ weight' r := fun r hr => h r (mem_cons_of_mem _ hr)
    rw [total_cons, total_cons]
    rcases mem_cons.mp hmem with rfl | hlater
    · calc weight row + total weight rest + d = weight row + d + total weight rest := by
            rw [add_right_comm]
        _ ≤ weight' row + total weight' rest := add_le_add hrow (total_le_total hrest)
    · calc weight first + total weight rest + d = weight first + (total weight rest + d) := by
            rw [add_assoc]
        _ ≤ weight' first + total weight' rest :=
            add_le_add (h first mem_cons_self) (ih hrest hlater)

theorem total_nonneg {weight : α → M} (h : ∀ row ∈ rows, 0 ≤ weight row) : 0 ≤ total weight rows := by
  refine sum_nonneg fun w hw => ?_
  obtain ⟨row, hrow, rfl⟩ := mem_map.mp hw
  exact h row hrow

theorem le_total_of_mem {weight : α → M} {row : α}
    (h : ∀ row ∈ rows, 0 ≤ weight row) (hmem : row ∈ rows) : weight row ≤ total weight rows := by
  have hsum : total (fun _ => (0 : M)) rows + weight row ≤ total weight rows :=
    total_add_le_total h hmem (by simp)
  simpa [total] using hsum

end Rows

/-!
## Totals over dictionaries

Assigning a key exchanges the weight of its entry. Rows that are listed only where they count weigh as
much as all of them.
-/

section Entries

variable {κ β ρ α M : Type}

theorem foldl_total [AddCommMonoid M] (weight : ρ → M) (rows : List ρ) (start : M) :
    rows.foldl (fun sum row => sum + weight row) start = start + total weight rows := by
  induction rows generalizing start with
  | nil => simp
  | cons row rest ih => rw [foldl_cons, ih, total_cons, add_assoc]

theorem total_filterMap [AddCommMonoid M] {listed : ρ → Option α} {weight : α → M} (rows : List ρ) :
    total weight (rows.filterMap listed) = total (fun row => (listed row).elim 0 weight) rows := by
  induction rows with
  | nil => rfl
  | cons row rest ih =>
    cases found : listed row with
    | none => rw [filterMap_cons_none found, ih, total_cons, found, Option.elim_none, zero_add]
    | some entry =>
      rw [filterMap_cons_some found, total_cons, ih, total_cons, found, Option.elim_some]

theorem total_sub [AddCommGroup M] (weight less : ρ → M) (rows : List ρ) :
    total (fun row => weight row - less row) rows = total weight rows - total less rows := by
  induction rows with
  | nil => simp
  | cons row rest ih =>
    rw [total_cons, total_cons, total_cons, ih]
    abel

theorem total_assign_elim [DecidableEq κ] [AddCommGroup M] {weight : κ × β → M} (key : κ) (value : β)
    (entries : List (κ × β)) : total weight (assign key value entries) =
      total weight entries + weight (key, value) - (find key entries).elim 0 fun old => weight (key, old) := by
  induction entries with
  | nil => simp [assign, find]
  | cons entry rest ih =>
    obtain ⟨first, old⟩ := entry
    by_cases same : first = key
    · subst same
      simp only [assign, find_cons, if_pos, total_cons, Option.elim_some]
      abel
    · simp only [assign, find_cons, if_neg same, total_cons, ih]
      abel

/-- A key that is assigned exchanges its weight; a key without an entry weighed nothing. -/
theorem total_assign [DecidableEq κ] [AddCommGroup M] {weight : κ × β → M} {key : κ} {value : β}
    (default : β) (light : weight (key, default) = 0) (entries : List (κ × β)) :
    total weight (assign key value entries) = total weight entries + weight (key, value) -
      weight (key, (find key entries).getD default) := by
  rw [total_assign_elim]
  cases find key entries with
  | none => rw [Option.elim_none, Option.getD_none, light]
  | some old => rw [Option.elim_some, Option.getD_some]

end Entries

end FinDashboard.Ledger
