import FinDashboard.Ledger.Dictionary
import Mathlib.Data.List.Sort

/-!
# Merging rows by a key

Of the rows with one key the last one is kept, and the kept rows are sorted by their keys.
-/

namespace FinDashboard.Ledger

open List

variable {κ ρ : Type} [LinearOrder κ] {key : ρ → κ} {name : κ} {rows existing new : List ρ} {row other : ρ}

/-- The last row of every key. -/
def byKey (key : ρ → κ) (rows : List ρ) : List (κ × ρ) :=
  rows.foldl (fun merged row => assign (key row) row merged) []

def mergeRows (key : ρ → κ) (existing new : List ρ) : List ρ :=
  ((byKey key (existing ++ new)).map (·.2)).insertionSort fun row other => key row ≤ key other

theorem find_foldl_byKey {merged : List (κ × ρ)} :
    find name (rows.foldl (fun merged row => assign (key row) row merged) merged) =
      ((rows.reverse.find? fun row => key row = name).or (find name merged)) := by
  induction rows generalizing merged with
  | nil => rfl
  | cons first rest ih =>
    rw [foldl_cons, ih, find_assign, reverse_cons, find?_append, Option.or_assoc]
    by_cases same : key first = name
    · simp [same]
    · simp [same]

/-- The value of a key is the last row with it. -/
theorem find_byKey : find name (byKey key rows) = rows.reverse.find? fun row => key row = name :=
  find_foldl_byKey.trans (Option.or_none)

theorem keys_foldl_byKey (rows : List ρ) {merged : List (κ × ρ)}
    (keys : ∀ entry ∈ merged, key entry.2 = entry.1) (distinct : (merged.map (·.1)).Nodup) :
    (∀ entry ∈ rows.foldl (fun merged row => assign (key row) row merged) merged, key entry.2 = entry.1) ∧
    ((rows.foldl (fun merged row => assign (key row) row merged) merged).map (·.1)).Nodup := by
  induction rows generalizing merged with
  | nil => exact ⟨keys, distinct⟩
  | cons first rest ih =>
    apply ih
    · intro entry member
      rcases mem_assign member with rfl | old
      · rfl
      · exact keys entry old
    · exact nodup_keys_assign distinct

theorem keys_byKey (key : ρ → κ) (rows : List ρ) :
    (∀ entry ∈ byKey key rows, key entry.2 = entry.1) ∧ ((byKey key rows).map (·.1)).Nodup :=
  keys_foldl_byKey rows (by simp) (by simp)

/-- The merged row of a key is the last one given. -/
theorem mem_mergeRows : row ∈ mergeRows key existing new ↔
    ((existing ++ new).reverse.find? fun other => key other = key row) = some row := by
  obtain ⟨keys, distinct⟩ := keys_byKey key (existing ++ new)
  have sorted : row ∈ mergeRows key existing new ↔ row ∈ (byKey key (existing ++ new)).map (·.2) :=
    (perm_insertionSort _ _).mem_iff
  rw [sorted, ← find_byKey]
  constructor
  · intro member
    obtain ⟨entry, held, rfl⟩ := mem_map.mp member
    rw [keys entry held]
    exact find_of_mem distinct held
  · intro found
    exact mem_map.mpr ⟨_, mem_of_find found, rfl⟩

theorem mem_of_mem_mergeRows (member : row ∈ mergeRows key existing new) : row ∈ existing ∨ row ∈ new := by
  have given := mem_of_find?_eq_some (mem_mergeRows.mp member)
  exact mem_append.mp (mem_reverse.mp given)

theorem key_mergeRows (member : row ∈ existing ∨ row ∈ new) :
    ∃ kept ∈ mergeRows key existing new, key kept = key row := by
  have given := mem_reverse.mpr (mem_append.mpr member)
  cases found : (existing ++ new).reverse.find? fun other => key other = key row with
  | none =>
    have absent := find?_eq_none.mp found row given
    simp at absent
  | some other =>
    have same : key other = key row := by simpa using find?_some found
    refine ⟨other, mem_mergeRows.mpr ?_, same⟩
    rw [same]
    exact found

theorem keys_mergeRows : (∃ kept ∈ mergeRows key existing new, key kept = name) ↔
    (∃ row ∈ existing, key row = name) ∨ ∃ row ∈ new, key row = name := by
  constructor
  · rintro ⟨kept, member, same⟩
    exact (mem_of_mem_mergeRows member).imp (fun old => ⟨kept, old, same⟩) fun fresh => ⟨kept, fresh, same⟩
  · rintro (⟨row, member, rfl⟩ | ⟨row, member, rfl⟩)
    · exact key_mergeRows (.inl member)
    · exact key_mergeRows (.inr member)

/-- A row that is the only one of its key stays. -/
theorem mem_mergeRows_of_only (member : row ∈ existing ∨ row ∈ new)
    (only : ∀ other, other ∈ existing ∨ other ∈ new → key other = key row → other = row) :
    row ∈ mergeRows key existing new := by
  obtain ⟨kept, merged, same⟩ : ∃ kept ∈ mergeRows key existing new, key kept = key row := key_mergeRows member
  rw [← only kept (mem_of_mem_mergeRows merged) same]
  exact merged

theorem last_mergeRows (member : row ∈ mergeRows key existing new) (given : other ∈ new)
    (same : key other = key row) : row ∈ new := by
  have found := mem_mergeRows.mp member
  rw [reverse_append, find?_append, Option.or_eq_some_iff] at found
  rcases found with last | ⟨absent, -⟩
  · exact mem_reverse.mp (mem_of_find?_eq_some last)
  · have differs := find?_eq_none.mp absent other (mem_reverse.mpr given)
    simp [same] at differs

theorem mem_mergeRows_of_new (given : row ∈ new) (only : ∀ other ∈ new, key other = key row → other = row) :
    row ∈ mergeRows key existing new := by
  obtain ⟨kept, member, same⟩ : ∃ kept ∈ mergeRows key existing new, key kept = key row :=
    key_mergeRows (.inr given)
  have fresh := last_mergeRows member given same.symm
  rw [← only kept fresh same]
  exact member

theorem sorted_mergeRows (key : ρ → κ) (existing new : List ρ) :
    (mergeRows key existing new).Pairwise fun row other => key row ≤ key other := by
  have total : Std.Total fun row other : ρ => key row ≤ key other := ⟨fun row other => le_total (key row) (key other)⟩
  have transitive : IsTrans ρ fun row other => key row ≤ key other := ⟨fun _ _ _ => le_trans⟩
  exact pairwise_insertionSort _ _

theorem nodup_mergeRows (key : ρ → κ) (existing new : List ρ) : ((mergeRows key existing new).map key).Nodup := by
  obtain ⟨keys, distinct⟩ := keys_byKey key (existing ++ new)
  have perm : ((mergeRows key existing new).map key).Perm (((byKey key (existing ++ new)).map (·.2)).map key) :=
    (perm_insertionSort _ _).map key
  have same : ((byKey key (existing ++ new)).map (·.2)).map key = (byKey key (existing ++ new)).map (·.1) := by
    rw [map_map]
    exact map_congr_left fun entry member => keys entry member
  rw [perm.nodup_iff, same]
  exact distinct

theorem ordered_mergeRows (key : ρ → κ) (existing new : List ρ) :
    (mergeRows key existing new).Pairwise fun row other => key row < key other := by
  have sorted := sorted_mergeRows key existing new
  have distinct := pairwise_map.mp (nodup_mergeRows key existing new)
  exact (sorted.and distinct).imp fun both => lt_of_le_of_ne both.1 both.2

theorem find?_mergeRows :
    ((mergeRows key existing new).reverse.find? fun other => key other = key row) = some row ↔
      row ∈ mergeRows key existing new := by
  constructor
  · exact fun found => mem_reverse.mp (mem_of_find?_eq_some found)
  · intro member
    cases found : (mergeRows key existing new).reverse.find? fun other => key other = key row with
    | none => simpa using find?_eq_none.mp found row (mem_reverse.mpr member)
    | some other =>
      have same : key other = key row := by simpa using find?_some found
      have held := mem_reverse.mp (mem_of_find?_eq_some found)
      rw [inj_on_of_nodup_map (nodup_mergeRows key existing new) held member same]

/-- A merge into a merge is the merge of all the rows. -/
theorem mergeRows_mergeRows (key : ρ → κ) (existing new later : List ρ) :
    mergeRows key (mergeRows key existing new) later = mergeRows key existing (new ++ later) := by
  have ordered := ordered_mergeRows key
  refine (ordered _ _).eq_of_mem_iff (ordered _ _) fun row => ?_
  rw [mem_mergeRows, mem_mergeRows, ← append_assoc, reverse_append, reverse_append, find?_append, find?_append]
  cases later.reverse.find? fun other => key other = key row with
  | some last => rfl
  | none => rw [Option.none_or, Option.none_or, find?_mergeRows, mem_mergeRows]

end FinDashboard.Ledger
