import Mathlib.Data.List.Nodup

/-!
# Computations over a store that record their writes

A computation over a store leaves, next to its result, the store after each write it made. It can
be stopped after any of them, so a triple has two conclusions: what holds at the end, and what holds
after every write.
-/

namespace FinDashboard.Runs

open List

section Recorded

variable {σ α β : Type}

structure Recorded (σ α : Type) where
  result : α
  store : σ
  /-- The store after each write, in order. -/
  writes : List σ

/-- A computation over a store. -/
def Recording (σ α : Type) : Type := σ → Recorded σ α

namespace Recording

protected def pure (value : α) : Recording σ α := fun s =>
  { result := value, store := s, writes := [] }

protected def bind (first : Recording σ α) (next : α → Recording σ β) : Recording σ β := fun s =>
  let before := first s
  let after := next before.result before.store
  { result := after.result, store := after.store, writes := before.writes ++ after.writes }

instance : Monad (Recording σ) where
  pure := Recording.pure
  bind := Recording.bind

def read : Recording σ σ := fun s => { result := s, store := s, writes := [] }

def write (change : σ → σ) : Recording σ Unit := fun s =>
  { result := (), store := change s, writes := [change s] }

def tryWrite (change : σ → Option σ) : Recording σ Bool := fun s =>
  match change s with
  | some next => { result := true, store := next, writes := [next] }
  | none => { result := false, store := s, writes := [] }

/-- From a store with `before`, every write leaves `during`, and the end has `after`. -/
def Triple (before : σ → Prop) (program : Recording σ α) (after : α → σ → Prop)
    (during : σ → Prop) : Prop :=
  ∀ s, before s → (∀ w ∈ (program s).writes, during w) ∧ after (program s).result (program s).store

section Rules

variable {before : σ → Prop} {during : σ → Prop} {program : Recording σ α} {after : α → σ → Prop}

theorem Triple.pure {value : α} (holds : ∀ s, before s → after value s) :
    Triple before (Pure.pure value : Recording σ α) after during :=
  fun s start => ⟨nofun, holds s start⟩

theorem Triple.bind {next : α → Recording σ β} {middle : α → σ → Prop} {after : β → σ → Prop}
    (first : Triple before program middle during)
    (rest : ∀ value, Triple (middle value) (next value) after during) :
    Triple before (program >>= next) after during := by
  intro s start
  obtain ⟨early, reached⟩ := first s start
  obtain ⟨late, done⟩ := rest (program s).result (program s).store reached
  refine ⟨?_, done⟩
  intro w member
  rcases mem_append.mp member with left | right
  · exact early w left
  · exact late w right

theorem Triple.weaken {after after' : α → σ → Prop} (triple : Triple before program after during)
    (weaker : ∀ value s, after value s → after' value s) : Triple before program after' during :=
  fun s start => ⟨(triple s start).1, weaker _ _ (triple s start).2⟩

theorem Triple.assume {fact : Prop} (triple : fact → Triple before program after during) :
    Triple (fun s => fact ∧ before s) program after during :=
  fun s start => triple start.1 s start.2

theorem Triple.strengthen {before' : σ → Prop} (triple : Triple before program after during)
    (stronger : ∀ s, before' s → before s) : Triple before' program after during :=
  fun s start => triple s (stronger s start)

theorem Triple.read {after : σ → σ → Prop} (holds : ∀ s, before s → after s s) :
    Triple before Recording.read after during :=
  fun s start => ⟨nofun, holds s start⟩

theorem Triple.write {change : σ → σ} {after : Unit → σ → Prop}
    (holds : ∀ s, before s → during (change s) ∧ after () (change s)) :
    Triple before (Recording.write change) after during := by
  intro s start
  obtain ⟨now, done⟩ := holds s start
  refine ⟨?_, done⟩
  intro w member
  rw [mem_singleton.mp member]
  exact now

theorem Triple.tryWrite {change : σ → Option σ} {after : Bool → σ → Prop}
    (holds : ∀ s, before s → ∃ next, change s = some next ∧ during next ∧ after true next) :
    Triple before (Recording.tryWrite change) after during := by
  intro s start
  obtain ⟨next, changed, now, done⟩ := holds s start
  unfold Recording.tryWrite
  rw [changed]
  refine ⟨?_, done⟩
  intro w member
  rw [mem_singleton.mp member]
  exact now

end Rules

end Recording

end Recorded

/-!
## Appending the rows of a log again

Rows are appended to a store by key. A row that is there already is left as it is if it is the same,
and a place that is taken is refused. On a store that holds the first rows of a log, appending a row
of the log again changes nothing, and appending the next one makes the front longer by one.
-/

section ReplayLog

variable {ρ κ : Type} [DecidableEq κ] {key : ρ → κ} {place : ρ → ℕ} {same : ρ → ρ → Bool}
  {front rest : List ρ} {row : ρ}

def appendRow (key : ρ → κ) (place : ρ → ℕ) (same : ρ → ρ → Bool) (stored : List ρ) (row : ρ) :
    Option (List ρ) :=
  match stored.find? fun other => key other = key row with
  | some other => if same other row then some stored else none
  | none => if place row ∈ stored.map place then none else some (stored ++ [row])

/-- A log that can be appended row by row. -/
structure Appendable (key : ρ → κ) (place : ρ → ℕ) (same : ρ → ρ → Bool) (log : List ρ) : Prop where
  keys : (log.map key).Nodup
  places : (log.map place).Nodup
  refl : ∀ row ∈ log, same row row = true

theorem find_of_nodup_keys {stored : List ρ} (keys : (stored.map key).Nodup) (member : row ∈ stored) :
    stored.find? (fun other => key other = key row) = some row := by
  induction stored with
  | nil => cases member
  | cons first stored ih =>
    obtain ⟨absent, keys⟩ := nodup_cons.mp keys
    rcases mem_cons.mp member with rfl | later
    · exact find?_cons_of_pos (by simp)
    · have differs : key first ≠ key row := by
        intro equal
        exact absent (mem_map.mpr ⟨row, later, equal.symm⟩)
      rw [find?_cons_of_neg (by simpa using differs)]
      exact ih keys later

theorem Appendable.appendRow_take (log : Appendable key place same (front ++ row :: rest)) {n : ℕ}
    (reaches : front.length ≤ n) : appendRow key place same ((front ++ row :: rest).take n) row =
      some ((front ++ row :: rest).take (max n (front.length + 1))) := by
  have keys := log.keys
  have places := log.places
  rcases Nat.lt_or_ge front.length n with stored | next
  · have taken : ((front ++ row :: rest).take n).map key = ((front ++ row :: rest).map key).take n :=
      map_take
    have member : row ∈ (front ++ row :: rest).take n := by
      rw [take_append, take_of_length_le reaches]
      obtain ⟨more, enough⟩ : ∃ more, n - front.length = more + 1 :=
        ⟨n - front.length - 1, by omega⟩
      rw [enough, take_succ_cons]
      exact mem_append_right _ mem_cons_self
    have found := find_of_nodup_keys (taken ▸ keys.sublist (take_sublist _ _)) member
    have agrees := log.refl row (mem_append_right _ mem_cons_self)
    unfold appendRow
    rw [found, Nat.max_eq_left (by omega)]
    exact if_pos agrees
  · obtain rfl : n = front.length := by omega
    rw [map_append, map_cons] at keys places
    have new_key : ∀ other ∈ front, ¬ key other = key row := by
      intro other member equal
      exact (disjoint_of_nodup_append keys) (mem_map_of_mem member)
        (equal ▸ mem_cons_self)
    have new_place : place row ∉ front.map place := by
      intro taken
      exact (disjoint_of_nodup_append places) taken mem_cons_self
    have unknown : front.find? (fun other => key other = key row) = none :=
      find?_eq_none.mpr fun other member => by simpa using new_key other member
    have longer : (front ++ row :: rest).take (front.length + 1) = front ++ [row] := by
      rw [take_append, take_of_length_le (Nat.le_succ _), Nat.add_sub_cancel_left]
      rfl
    unfold appendRow
    rw [take_left, unknown, Nat.max_eq_right (Nat.le_succ _), longer]
    exact if_neg new_place

end ReplayLog

end FinDashboard.Runs
