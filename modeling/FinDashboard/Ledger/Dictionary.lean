import Mathlib.Data.List.Nodup

/-!
# Dictionaries

A dictionary is the list of its entries in the order in which their keys were first assigned.
-/

namespace FinDashboard.Ledger

open List

variable {κ β γ : Type} [DecidableEq κ] {entries : List (κ × β)} {entry : κ × β} {key other : κ}
  {value : β}

def assign (key : κ) (value : β) : List (κ × β) → List (κ × β)
  | [] => [(key, value)]
  | entry :: rest => if entry.1 = key then (key, value) :: rest else entry :: assign key value rest

def remove (key : κ) (entries : List (κ × β)) : List (κ × β) :=
  entries.filter fun entry => entry.1 ≠ key

def find (key : κ) : List (κ × β) → Option β
  | [] => none
  | entry :: rest => if entry.1 = key then some entry.2 else find key rest

theorem mem_assign (h : entry ∈ assign key value entries) : entry = (key, value) ∨ entry ∈ entries := by
  induction entries with
  | nil => exact Or.inl (mem_singleton.mp h)
  | cons first rest ih =>
    unfold assign at h
    split_ifs at h with hkey
    · obtain rfl | hrest := mem_cons.mp h
      · exact Or.inl rfl
      · exact Or.inr (mem_cons_of_mem _ hrest)
    · obtain rfl | hrest := mem_cons.mp h
      · exact Or.inr mem_cons_self
      · obtain hnew | hold := ih hrest
        · exact Or.inl hnew
        · exact Or.inr (mem_cons_of_mem _ hold)

theorem mem_of_find (h : find key entries = some value) : (key, value) ∈ entries := by
  induction entries with
  | nil => cases h
  | cons first rest ih =>
    unfold find at h
    split_ifs at h with hkey
    · have hfirst : first = (key, value) := by
        rw [← hkey, ← Option.some.inj h]
      rw [hfirst]
      exact mem_cons_self
    · exact mem_cons_of_mem _ (ih h)

/-- A mark that no old entry carries keeps the marks apart. -/
theorem nodup_map_assign (mark : κ × β → γ) (h : (entries.map mark).Nodup)
    (hfresh : mark (key, value) ∉ entries.map mark) : ((assign key value entries).map mark).Nodup := by
  induction entries with
  | nil => simp [assign]
  | cons first rest ih =>
    obtain ⟨hfirst, hrest⟩ := nodup_cons.mp h
    have hnew := not_or.mp (mt mem_cons.mpr hfresh)
    unfold assign
    split_ifs with hkey
    · exact nodup_cons.mpr ⟨hnew.2, hrest⟩
    · refine nodup_cons.mpr ⟨?_, ih hrest hnew.2⟩
      intro hmem
      obtain ⟨entry, hentry, hmark⟩ := mem_map.mp hmem
      obtain rfl | hold := mem_assign hentry
      · exact hnew.1 hmark
      · exact hfirst (mem_map.mpr ⟨entry, hold, hmark⟩)

theorem nodup_keys_assign (h : (entries.map (·.1)).Nodup) :
    ((assign key value entries).map (·.1)).Nodup := by
  induction entries with
  | nil => simp [assign]
  | cons first rest ih =>
    obtain ⟨hfirst, hrest⟩ := nodup_cons.mp h
    unfold assign
    split_ifs with hkey
    · exact nodup_cons.mpr ⟨hkey ▸ hfirst, hrest⟩
    · refine nodup_cons.mpr ⟨?_, ih hrest⟩
      intro hmem
      obtain ⟨entry, hentry, hsame⟩ := mem_map.mp hmem
      obtain rfl | hold := mem_assign hentry
      · exact hkey hsame.symm
      · exact hfirst (mem_map.mpr ⟨entry, hold, hsame⟩)

theorem assign_of_fresh (hfresh : key ∉ entries.map (·.1)) :
    assign key value entries = entries ++ [(key, value)] := by
  induction entries with
  | nil => rfl
  | cons first rest ih =>
    obtain ⟨hfirst, hrest⟩ := not_or.mp (fun h => hfresh (mem_cons.mpr h))
    rw [assign, if_neg (Ne.symm hfirst), ih hrest, cons_append]

/-- With distinct keys every entry is the one its key finds. -/
theorem find_of_mem (h : (entries.map (·.1)).Nodup) (hentry : entry ∈ entries) :
    find entry.1 entries = some entry.2 := by
  induction entries with
  | nil => cases hentry
  | cons first rest ih =>
    obtain ⟨hfirst, hrest⟩ := nodup_cons.mp h
    unfold find
    obtain rfl | hlater := mem_cons.mp hentry
    · rw [if_pos rfl]
    · have hother : first.1 ≠ entry.1 := fun hsame =>
        hfirst (mem_map.mpr ⟨entry, hlater, hsame.symm⟩)
      rw [if_neg hother]
      exact ih hrest hlater

theorem find_eq_none (h : find key entries = none) : key ∉ entries.map (·.1) := by
  induction entries with
  | nil => nofun
  | cons first rest ih =>
    unfold find at h
    split_ifs at h with hkey
    rw [map_cons, mem_cons, not_or]
    exact ⟨fun hsame => hkey hsame.symm, ih h⟩

/-- The order of the entries does not matter where their keys are distinct. -/
theorem find_perm {others : List (κ × β)} (h : (entries.map (·.1)).Nodup)
    (hperm : entries.Perm others) : find key others = find key entries := by
  have hothers := (hperm.map _).nodup_iff.mp h
  cases hfind : find key entries with
  | some value => exact find_of_mem hothers (hperm.mem_iff.mp (mem_of_find hfind))
  | none =>
    cases hother : find key others with
    | none => rfl
    | some value =>
      have hmem := mem_map_of_mem (f := (·.1)) (hperm.mem_iff.mpr (mem_of_find hother))
      exact absurd hmem (find_eq_none hfind)

theorem remove_sublist (key : κ) (entries : List (κ × β)) : (remove key entries).Sublist entries :=
  filter_sublist

theorem mark_of_remove (mark : κ × β → γ) (h : (entries.map mark).Nodup)
    (hentry : (key, value) ∈ entries) : mark (key, value) ∉ (remove key entries).map mark := by
  intro hmem
  obtain ⟨other, hother, hmark⟩ := mem_map.mp hmem
  obtain ⟨hthere, hkey⟩ := mem_filter.mp hother
  have hsame := inj_on_of_nodup_map h hthere hentry hmark
  rw [hsame] at hkey
  simp at hkey

@[simp] theorem find_cons : find key (entry :: entries) =
    if entry.1 = key then some entry.2 else find key entries := rfl

@[simp] theorem find_assign : find other (assign key value entries) =
    if key = other then some value else find other entries := by
  induction entries with
  | nil => rfl
  | cons first rest ih =>
    unfold assign
    by_cases hfirst : first.1 = key
    · rw [if_pos hfirst]
      by_cases hother : key = other <;> simp [hfirst, hother]
    · rw [if_neg hfirst, find_cons, ih, find_cons]
      by_cases hother : first.1 = other
      · have hkey : key ≠ other := fun hsame => hfirst (hother.trans hsame.symm)
        simp [hother, hkey]
      · simp [hother]

@[simp] theorem find_remove : find other (remove key entries) =
    if other = key then none else find other entries := by
  induction entries with
  | nil => simp [remove, find]
  | cons first rest ih =>
    unfold remove at ih ⊢
    by_cases hfirst : first.1 = key
    · rw [filter_cons_of_neg (by simpa using hfirst), ih, find_cons]
      by_cases hother : other = key
      · rw [if_pos hother, if_pos hother]
      · have hne : first.1 ≠ other := fun hsame => hother (hsame.symm.trans hfirst)
        rw [if_neg hother, if_neg hother, if_neg hne]
    · rw [filter_cons_of_pos (by simpa using hfirst), find_cons, find_cons, ih]
      by_cases hother : other = key
      · have hne : first.1 ≠ other := fun hsame => hfirst (hsame.trans hother)
        rw [if_pos hother, if_neg hne, if_pos hother]
      · rw [if_neg hother, if_neg hother]

theorem find_map (f : β → γ) (key : κ) (entries : List (κ × β)) :
    find key (entries.map fun entry => (entry.1, f entry.2)) = (find key entries).map f := by
  induction entries with
  | nil => rfl
  | cons first rest ih =>
    rw [map_cons]
    unfold find
    split_ifs
    · rfl
    · exact ih

/-- Entries that are left out or rewritten, where the keys are distinct. -/
theorem find_filterMap {f : β → Option γ} (h : (entries.map (·.1)).Nodup) (key : κ) :
    find key (entries.filterMap fun entry => (f entry.2).map fun result => (entry.1, result)) =
      (find key entries).bind f := by
  induction entries with
  | nil => rfl
  | cons first rest ih =>
    obtain ⟨hfirst, hrest⟩ := nodup_cons.mp h
    have later := ih hrest
    rw [find_cons, filterMap_cons]
    by_cases hkey : first.1 = key
    · have absent : find key rest = none := by
        cases found : find key rest with
        | none => rfl
        | some value =>
          have hmem : key ∈ rest.map (·.1) := mem_map_of_mem (mem_of_find found)
          rw [← hkey] at hmem
          exact absurd hmem hfirst
      rw [if_pos hkey, Option.bind_some]
      cases result : f first.2 with
      | none =>
        rw [Option.map_none, later, absent, Option.bind_none]
      | some value =>
        rw [Option.map_some, find_cons, if_pos hkey]
    · rw [if_neg hkey, ← later]
      cases result : f first.2 with
      | none => rfl
      | some value => rw [Option.map_some, find_cons, if_neg hkey]

omit [DecidableEq κ] in
theorem nodup_keys_filterMap {f : β → Option γ} (h : (entries.map (·.1)).Nodup) :
    ((entries.filterMap fun entry => (f entry.2).map fun result => (entry.1, result)).map
      (·.1)).Nodup := by
  have hsublist : ((entries.filterMap fun entry => (f entry.2).map fun result =>
      (entry.1, result)).map (·.1)).Sublist (entries.map (·.1)) := by
    clear h
    induction entries with
    | nil => exact List.Sublist.refl _
    | cons first rest ih =>
      rw [filterMap_cons, map_cons]
      cases f first.2 with
      | none => exact ih.cons _
      | some result => exact ih.cons_cons _
  exact hsublist.nodup h

/-- Keys that are assigned one after the other, where they are distinct. -/
theorem foldl_assign {δ : Type} {name : δ → κ} {rows : List δ} {earlier : List (κ × δ)}
    (h : (earlier.map (·.1) ++ rows.map name).Nodup) :
    rows.foldl (fun held row => assign (name row) row held) earlier =
      earlier ++ rows.map fun row => (name row, row) := by
  induction rows generalizing earlier with
  | nil => exact (append_nil earlier).symm
  | cons row rest ih =>
    have hfresh : name row ∉ earlier.map (·.1) := by
      intro hmem
      have hapart := (nodup_append.mp h).2.2 _ hmem _ mem_cons_self
      exact hapart rfl
    rw [foldl_cons, assign_of_fresh hfresh, ih]
    · rw [map_cons, append_assoc, singleton_append]
    · rw [map_append, append_assoc]
      exact h

end FinDashboard.Ledger
