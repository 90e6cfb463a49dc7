import FinDashboard.Research.Contracts
import Mathlib.Data.String.Basic

/-!
# Building dictionaries

A dictionary built entry by entry keeps its keys in order, and one whose keys came in order is built
as it was.
-/

namespace FinDashboard.Research

open List

namespace TextDict

variable {α : Type} {key : String} {value : α} {entries : List (String × α)}

def insertEntry (key : String) (value : α) : List (String × α) → List (String × α)
  | [] => [(key, value)]
  | entry :: rest =>
    if key < entry.1 then (key, value) :: entry :: rest
    else if key = entry.1 then (key, value) :: rest
    else entry :: insertEntry key value rest

def Ordered (entries : List (String × α)) : Prop := (entries.map (·.1)).Pairwise (· < ·)

theorem keys_insertEntry {other : String} (member : other ∈ (insertEntry key value entries).map (·.1)) :
    other = key ∨ other ∈ entries.map (·.1) := by
  induction entries with
  | nil => exact .inl (mem_singleton.mp member)
  | cons entry rest ih =>
    unfold insertEntry at member
    split_ifs at member with before same
    · rcases mem_cons.mp member with now | later
      · exact .inl now
      · exact .inr later
    · rcases mem_cons.mp member with now | later
      · exact .inl now
      · exact .inr (mem_cons_of_mem _ later)
    · rcases mem_cons.mp member with now | later
      · exact .inr (now ▸ mem_cons_self)
      · rcases ih later with found | found
        · exact .inl found
        · exact .inr (mem_cons_of_mem _ found)

theorem ordered_insertEntry (ordered : Ordered entries) : Ordered (insertEntry key value entries) := by
  induction entries with
  | nil => exact pairwise_singleton _ _
  | cons entry rest ih =>
    obtain ⟨first, later⟩ := pairwise_cons.mp ordered
    unfold insertEntry
    split_ifs with before same
    · refine pairwise_cons.mpr ⟨?_, ordered⟩
      intro other member
      rcases mem_cons.mp member with rfl | member
      · exact before
      · exact lt_trans before (first other member)
    · refine pairwise_cons.mpr ⟨?_, later⟩
      intro other member
      rw [same]
      exact first other member
    · refine pairwise_cons.mpr ⟨?_, ih later⟩
      intro other member
      rcases keys_insertEntry member with rfl | member
      · exact lt_of_le_of_ne (not_lt.mp before) (Ne.symm same)
      · exact first other member

/-- A key after all others is assigned at the end. -/
theorem insertEntry_of_gt (last : ∀ other ∈ entries.map (·.1), other < key) :
    insertEntry key value entries = entries ++ [(key, value)] := by
  induction entries with
  | nil => rfl
  | cons entry rest ih =>
    have first := last entry.1 mem_cons_self
    have later := ih fun other member => last other (mem_cons_of_mem _ member)
    rw [insertEntry, if_neg (lt_asymm first), if_neg (ne_of_gt first), later, cons_append]

def build (entries : List (String × α)) : List (String × α) → List (String × α)
  | [] => entries
  | entry :: rest => build (insertEntry entry.1 entry.2 entries) rest

theorem ordered_build {more : List (String × α)} (ordered : Ordered entries) :
    Ordered (build entries more) := by
  induction more generalizing entries with
  | nil => exact ordered
  | cons entry rest ih => exact ih (ordered_insertEntry ordered)

theorem build_of_ordered {more : List (String × α)} (ordered : Ordered (entries ++ more)) :
    build entries more = entries ++ more := by
  induction more generalizing entries with
  | nil => exact (append_nil entries).symm
  | cons entry rest ih =>
    have split := ordered
    unfold Ordered at split
    rw [map_append, map_cons, pairwise_append] at split
    have placed : insertEntry entry.1 entry.2 entries = entries ++ [entry] :=
      insertEntry_of_gt fun other member => split.2.2 other member _ mem_cons_self
    rw [build, placed, ih]
    · rw [append_assoc, singleton_append]
    · rw [append_assoc, singleton_append]
      exact ordered

/-- A dictionary from its entries; the last entry of a key counts. -/
def ofEntries (entries : List (String × α)) : TextDict α where
  entries := build [] entries
  ordered := ordered_build List.Pairwise.nil

theorem ofEntries_entries (dict : TextDict α) : ofEntries dict.entries = dict := by
  obtain ⟨entries, ordered⟩ := dict
  have same : build [] entries = entries := build_of_ordered ordered
  simp only [ofEntries, same]

end TextDict

end FinDashboard.Research
