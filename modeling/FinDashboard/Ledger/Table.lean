import FinDashboard.Ledger.Totals
import Mathlib.Algebra.BigOperators.Ring.Finset

/-!
# Tables of rows

Two ways a row is addressed: by an automatic id, which is its place in the table, and by a
unique key. A rewritten row keeps its address, so the totals of the table change by what the
one row changes.
-/

namespace FinDashboard.Ledger

open List

variable {α M κ : Type*}

/-- Every row carries its place in the table. -/
def Indexed (rowId : α → ℕ) (rows : List α) : Prop := rows.map rowId = range rows.length

namespace Indexed

variable {rowId : α → ℕ} {rows : List α} {row old : α} {i : ℕ}

theorem append (h : Indexed rowId rows) (hid : rowId row = rows.length) :
    Indexed rowId (rows ++ [row]) := by
  unfold Indexed
  rw [map_append, h, length_append, length_singleton, range_succ, ← hid]
  rfl

theorem eq_of_getElem? (h : Indexed rowId rows) (hrow : rows[i]? = some row) : rowId row = i := by
  have hmap : (rows.map rowId)[i]? = some (rowId row) := by rw [List.getElem?_map, hrow]; rfl
  rw [h] at hmap
  obtain ⟨_, hi⟩ := List.getElem?_eq_some_iff.mp hmap
  simpa using hi.symm

theorem getElem?_of_mem (h : Indexed rowId rows) (hmem : row ∈ rows) : rows[rowId row]? = some row := by
  obtain ⟨i, hi⟩ := mem_iff_getElem?.mp hmem
  rw [h.eq_of_getElem? hi, hi]

theorem set (h : Indexed rowId rows) (hold : rows[rowId old]? = some old)
    (hid : rowId row = rowId old) : Indexed rowId (rows.set (rowId old) row) := by
  unfold Indexed
  rw [map_set, hid, length_set, h]
  refine ext_getElem? fun j => ?_
  by_cases hj : rowId old = j
  · subst hj
    obtain ⟨hlt, _⟩ := List.getElem?_eq_some_iff.mp hold
    simp [hlt]
  · rw [List.getElem?_set_ne hj]

theorem nodup (h : Indexed rowId rows) : (rows.map rowId).Nodup := by
  rw [h]
  exact nodup_range

end Indexed

section Sums

variable [AddCommMonoid M] {weight : α → M} {rows : List α} {row old : α} {i : ℕ}

theorem total_set_add (hold : rows[i]? = some old) :
    total weight (rows.set i row) + weight old = total weight rows + weight row := by
  induction rows generalizing i with
  | nil => simp at hold
  | cons first rest ih =>
    cases i with
    | zero =>
      have hfirst : first = old := by simpa using hold
      rw [set_cons_zero, total_cons, total_cons, hfirst, add_right_comm, add_comm (weight row),
        add_right_comm]
    | succ i =>
      have hrest : rest[i]? = some old := by simpa using hold
      rw [set_cons_succ, total_cons, total_cons, add_assoc, ih hrest, add_assoc]

theorem total_filter (p : α → Bool) :
    total weight (rows.filter p) = total (fun row => if p row then weight row else 0) rows := by
  induction rows with
  | nil => rfl
  | cons first rest ih => by_cases h : p first <;> simp [h, ih]

end Sums

section References

variable {β : Type*} [CommSemiring M]

theorem total_eq_sum_range (weight : α → M) (rows : List α) :
    total weight rows = ∑ i ∈ Finset.range rows.length, (rows[i]?).elim 0 weight := by
  induction rows with
  | nil => rfl
  | cons first rest ih =>
    rw [total_cons, ih, length_cons, Finset.sum_range_succ']
    simp [add_comm]

theorem total_by_place {place : β → ℕ} {n : ℕ} (value : ℕ → M) (weight : β → M) {rows : List β}
    (h : ∀ row ∈ rows, place row < n) : total (fun row => value (place row) * weight row) rows =
      ∑ i ∈ Finset.range n, value i * total weight (rows.filter fun row => place row = i) := by
  induction rows with
  | nil => simp
  | cons first rest ih =>
    have hfirst := h first mem_cons_self
    have hsplit : ∀ i, value i * total weight ((first :: rest).filter fun row => place row = i) =
        (if place first = i then value i * weight first else 0) +
          value i * total weight (rest.filter fun row => place row = i) := by
      intro i
      by_cases hplace : place first = i
      · simp [hplace, mul_add]
      · simp [hplace]
    rw [total_cons, ih fun row hrow => h row (mem_cons_of_mem _ hrow),
      Finset.sum_congr rfl fun i _ => hsplit i, Finset.sum_add_distrib, Finset.sum_ite_eq,
      if_pos (Finset.mem_range.mpr hfirst)]

end References

section Keys

variable [DecidableEq κ] {key : α → κ} {rows : List α} {row r : α}

/-- The row of a key is replaced. -/
def overwrite (key : α → κ) (row : α) (rows : List α) : List α :=
  rows.map fun r => if key r = key row then row else r

theorem mem_overwrite (h : r ∈ overwrite key row rows) : r = row ∨ (r ∈ rows ∧ key r ≠ key row) := by
  obtain ⟨old, hold, heq⟩ := mem_map.mp h
  by_cases hkey : key old = key row
  · left
    rw [← heq, if_pos hkey]
  · right
    rw [if_neg hkey] at heq
    rw [← heq]
    exact ⟨hold, hkey⟩

theorem map_key_overwrite : (overwrite key row rows).map key = rows.map key := by
  unfold overwrite
  rw [map_map]
  refine map_congr_left fun r _ => ?_
  by_cases hkey : key r = key row <;> simp [hkey]

theorem exists_key_overwrite {k : κ} (h : ∃ r ∈ rows, key r = k) :
    ∃ r ∈ overwrite key row rows, key r = k := by
  have hkeys : k ∈ (overwrite key row rows).map key := by
    rw [map_key_overwrite]
    exact mem_map.mpr h
  exact mem_map.mp hkeys

theorem find?_overwrite (h : ∃ r ∈ rows, key r = key row) :
    (overwrite key row rows).find? (fun r => key r = key row) = some row := by
  induction rows with
  | nil =>
    obtain ⟨r, hmem, -⟩ := h
    cases hmem
  | cons first rest ih =>
    have hcons : overwrite key row (first :: rest) =
        (if key first = key row then row else first) :: overwrite key row rest := rfl
    rw [hcons]
    by_cases hkey : key first = key row
    · rw [if_pos hkey, find?_cons_of_pos (by simp)]
    · rw [if_neg hkey, find?_cons_of_neg (by simpa using hkey)]
      obtain ⟨r, hmem, heq⟩ := h
      obtain rfl | hlater := mem_cons.mp hmem
      · exact absurd heq hkey
      · exact ih ⟨r, hlater, heq⟩

/-- Without a row of the key nothing is replaced. -/
theorem overwrite_of_absent (h : ∀ r ∈ rows, key r ≠ key row) : overwrite key row rows = rows := by
  unfold overwrite
  rw [map_congr_left fun r hr => if_neg (h r hr), map_id']

/-- The row of a unique key exchanges its weight. -/
theorem total_overwrite [AddCommMonoid M] {weight : α → M} {old : α} (hkeys : (rows.map key).Nodup)
    (hold : old ∈ rows) (hkey : key old = key row) :
    total weight (overwrite key row rows) + weight old = total weight rows + weight row := by
  induction rows with
  | nil => cases hold
  | cons first rest ih =>
    rw [map_cons, nodup_cons] at hkeys
    obtain ⟨hfresh, hrest⟩ := hkeys
    have hcons : overwrite key row (first :: rest) =
        (if key first = key row then row else first) :: overwrite key row rest := rfl
    rw [hcons, total_cons, total_cons]
    obtain rfl | hlater := mem_cons.mp hold
    · have habsent : ∀ r ∈ rest, key r ≠ key row := by
        intro r hr heq
        exact hfresh (mem_map.mpr ⟨r, hr, heq.trans hkey.symm⟩)
      rw [if_pos hkey, overwrite_of_absent habsent, add_comm, add_comm (weight row), ← add_assoc]
    · have hother : key first ≠ key row := by
        intro heq
        exact hfresh (mem_map.mpr ⟨old, hlater, hkey.trans heq.symm⟩)
      rw [if_neg hother, add_assoc, ih hrest hlater, add_assoc]

end Keys

end FinDashboard.Ledger
