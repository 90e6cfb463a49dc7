import FinDashboard.Ledger.Totals
import Mathlib.Algebra.Order.Group.Unbundled.Basic

/-!
# Caches that count what they hold

A cache keeps entries by their keys, the longest unused first, and counts what they cost. An entry is put
after the first entries are evicted until it fits. The count goes wrong where a key is put that is still
held, since the entry it replaces stays counted.
-/

namespace FinDashboard.Ledger

open List

structure CountedCache (κ ε M : Type) where
  entries : List (κ × ε)
  /-- The count. -/
  used : M
deriving DecidableEq

namespace CountedCache

variable {κ ε M : Type} [DecidableEq κ] [AddCommGroup M]

section Operations

variable (cost : ε → M) (fits : M → Bool)

def empty : CountedCache κ ε M := ⟨[], 0⟩

/-- A key that is found becomes the last one. -/
def touch (key : κ) (cache : CountedCache κ ε M) : CountedCache κ ε M :=
  match find key cache.entries with
  | none => cache
  | some entry => { cache with entries := remove key cache.entries ++ [(key, entry)] }

def evict (added : M) : List (κ × ε) → M → CountedCache κ ε M
  | [], used => ⟨[], used⟩
  | first :: rest, used =>
    if fits (used + added) then ⟨first :: rest, used⟩ else evict added rest (used - cost first.2)

def evicted (entry : ε) (cache : CountedCache κ ε M) : CountedCache κ ε M :=
  evict cost fits (cost entry) cache.entries cache.used

/-- An entry that never fits is not put. -/
def put (key : κ) (entry : ε) (cache : CountedCache κ ε M) : CountedCache κ ε M :=
  if fits (cost entry) then
    { entries := assign key entry (cache.evicted cost fits entry).entries
      used := (cache.evicted cost fits entry).used + cost entry }
  else cache

def drop (dropped : κ → Bool) (cache : CountedCache κ ε M) : CountedCache κ ε M where
  entries := cache.entries.filter fun item => !dropped item.1
  used := cache.used - total (fun item => cost item.2) (cache.entries.filter fun item => dropped item.1)

/-- The count is the cost of the entries. -/
def Counted (cache : CountedCache κ ε M) : Prop := cache.used = total (fun item => cost item.2) cache.entries

/-- No key is held twice, the count is the cost of the entries, and it fits. -/
structure Sound (cache : CountedCache κ ε M) : Prop where
  keyed : (cache.entries.map (·.1)).Nodup
  counted : cache.Counted cost
  fitting : fits cache.used = true

/-- Where the entry is put, its key is not held, or by an entry that costs nothing. -/
def Free (key : κ) (entry : ε) (cache : CountedCache κ ε M) : Prop :=
  fits (cost entry) = true → ∀ old ∈ find key (cache.evicted cost fits entry).entries, cost old = 0

end Operations

variable {cost : ε → M} {fits : M → Bool} {cache : CountedCache κ ε M} {key : κ} {entry : ε}

theorem perm_remove {entries : List (κ × ε)} (keyed : (entries.map (·.1)).Nodup)
    (found : find key entries = some entry) : (remove key entries ++ [(key, entry)]).Perm entries := by
  have nodup := keyed.of_map
  have apart : (remove key entries ++ [(key, entry)]).Nodup := by
    apply nodup_append.mpr
    refine ⟨nodup.sublist (remove_sublist key entries), nodup_singleton _, fun item member other last => ?_⟩
    rw [mem_singleton.mp last]
    rintro rfl
    simp [remove] at member
  apply (perm_ext_iff_of_nodup apart nodup).mpr
  intro item
  rw [mem_append, mem_singleton, remove, mem_filter, decide_eq_true_eq]
  constructor
  · rintro (⟨member, -⟩ | rfl)
    · exact member
    · exact mem_of_find found
  · intro member
    by_cases same : item.1 = key
    · have value := find_of_mem keyed member
      rw [same, found] at value
      exact Or.inr (Prod.ext same (Option.some.inj value).symm)
    · exact Or.inl ⟨member, same⟩

omit [AddCommGroup M] in
theorem perm_touch (keyed : (cache.entries.map (·.1)).Nodup) (key : κ) :
    (cache.touch key).entries.Perm cache.entries ∧ (cache.touch key).used = cache.used := by
  unfold touch
  cases found : find key cache.entries with
  | none => exact ⟨List.Perm.refl _, rfl⟩
  | some entry => exact ⟨perm_remove keyed found, rfl⟩

theorem Sound.touch (sound : cache.Sound cost fits) (key : κ) : (cache.touch key).Sound cost fits := by
  obtain ⟨perm, used⟩ := perm_touch sound.keyed key
  constructor
  · exact (perm.map (·.1)).nodup_iff.mpr sound.keyed
  · unfold Counted
    rw [used, total_perm perm]
    exact sound.counted
  · rw [used]
    exact sound.fitting

omit [DecidableEq κ] in
theorem evict_sound {added : M} {entries : List (κ × ε)} {used : M}
    (counted : used = total (fun item => cost item.2) entries) :
    (evict cost fits added entries used).Counted cost ∧
      (evict cost fits added entries used).entries.Sublist entries ∧
      ((evict cost fits added entries used).entries = [] ∨
        fits ((evict cost fits added entries used).used + added) = true) := by
  induction entries generalizing used with
  | nil => exact ⟨counted, List.Sublist.refl _, Or.inl rfl⟩
  | cons first rest ih =>
    unfold evict
    split
    · rename_i enough
      exact ⟨counted, List.Sublist.refl _, Or.inr enough⟩
    · have counted' : used - cost first.2 = total (fun item => cost item.2) rest := by
        rw [counted, total_cons]
        abel
      obtain ⟨counts, sublist, enough⟩ := ih counted'
      exact ⟨counts, sublist.trans (sublist_cons_self _ _), enough⟩

omit [DecidableEq κ] in
theorem evicted_sound (counted : cache.Counted cost) (fits : M → Bool) (entry : ε) :
    (cache.evicted cost fits entry).Counted cost ∧
      (cache.evicted cost fits entry).entries.Sublist cache.entries ∧
      ((cache.evicted cost fits entry).entries = [] ∨
        fits ((cache.evicted cost fits entry).used + cost entry) = true) :=
  evict_sound counted

theorem counted_put_iff (counted : cache.Counted cost) (fits : M → Bool) (key : κ) (entry : ε) :
    (cache.put cost fits key entry).Counted cost ↔ Free cost fits key entry cache := by
  have kept := (evicted_sound counted fits entry).1
  unfold put Free
  split
  · rename_i small
    change (cache.evicted cost fits entry).used + cost entry =
      total _ (assign key entry (cache.evicted cost fits entry).entries) ↔ _
    rw [total_assign_elim, ← kept]
    cases find key (cache.evicted cost fits entry).entries with
    | none => simp [small]
    | some old => simp [small, eq_sub_iff_add_eq]
  · rename_i large
    simp [counted, large]

theorem Sound.put (sound : cache.Sound cost fits) {key : κ} {entry : ε} (free : Free cost fits key entry cache) :
    (cache.put cost fits key entry).Sound cost fits := by
  obtain ⟨kept, sublist, enough⟩ := evicted_sound sound.counted fits entry
  refine ⟨?_, (counted_put_iff sound.counted fits key entry).mpr free, ?_⟩
  · unfold CountedCache.put
    split
    · exact nodup_keys_assign (sound.keyed.sublist (sublist.map _))
    · exact sound.keyed
  · unfold CountedCache.put
    split
    · rename_i small
      rcases enough with nothing | enough
      · -- nothing is left, so the count is the cost of the entry
        rw [Counted, nothing, total_nil] at kept
        simp only [kept, zero_add]
        exact small
      · exact enough
    · exact sound.fitting

omit [DecidableEq κ] in
theorem Sound.drop [PartialOrder M] [IsOrderedAddMonoid M] (sound : cache.Sound cost fits)
    (nonneg : ∀ entry, 0 ≤ cost entry) (smaller : ∀ {less more : M}, less ≤ more → fits more = true → fits less = true)
    (dropped : κ → Bool) : (cache.drop cost dropped).Sound cost fits := by
  have split : total (fun item => cost item.2) cache.entries =
      total (fun item => cost item.2) (cache.entries.filter fun item => dropped item.1) +
        total (fun item => cost item.2) (cache.entries.filter fun item => !dropped item.1) := by
    rw [← total_append]
    exact total_perm (filter_append_perm _ _).symm
  have used := sound.counted
  refine ⟨sound.keyed.sublist (filter_sublist.map _), ?_, ?_⟩
  · change cache.used - total _ (cache.entries.filter fun item => dropped item.1) =
      total _ (cache.entries.filter fun item => !dropped item.1)
    rw [used, split, add_sub_cancel_left]
  · apply smaller _ sound.fitting
    exact sub_le_self _ (total_nonneg fun item _ => nonneg item.2)

omit [DecidableEq κ] in
theorem Sound.used_eq_zero (sound : cache.Sound cost fits) (nothing : cache.entries = []) : cache.used = 0 := by
  have used := sound.counted
  rw [used, nothing, total_nil]

end CountedCache

end FinDashboard.Ledger
