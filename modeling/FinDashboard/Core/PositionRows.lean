import FinDashboard.Core.OrderManager
import Mathlib.Tactic.Linarith

/-!
# What a fill does to the local positions

`apply_fill` changes the available quantity of the filled code, by at most the sold quantity
downwards, and of no other code.
-/

namespace FinDashboard.Core

open Persistence List

variable {account : AccountId} {fill : Fill} {position : Position} {s : Store}

def availableQuantity (s : Store) (account : AccountId) (code : String) : ℚ :=
  (((listLocal s account).find? fun pos => pos.symbol.code = code).map (·.availableQuantity)).getD 0

/-- No row has more available than it holds. -/
def PositionsSound (s : Store) : Prop :=
  ∀ pos ∈ s.positions, 0 ≤ pos.availableQuantity ∧ pos.availableQuantity ≤ pos.totalQuantity

def localPosition (s : Store) (account : AccountId) (symbol : Symbol) : Position :=
  loadOrCreate account symbol (listLocal s account)

theorem positionAfter_key (fill : Fill) (position : Position) :
    (positionAfter fill position).accountId = position.accountId ∧
      (positionAfter fill position).symbol = position.symbol ∧
      (positionAfter fill position).positionSide = position.positionSide := by
  unfold positionAfter
  dsimp only
  generalize (if fill.side = .buy then fill.quantity else -fill.quantity) = signedQuantity
  split <;> exact ⟨rfl, rfl, rfl⟩

/-- A sale lowers the available quantity by at most its own; a purchase does not lower it. -/
theorem availableQuantity_positionAfter (hquantity : 0 < fill.quantity)
    (hsound : position.availableQuantity ≤ position.totalQuantity) : (fill.side = .sell →
      position.availableQuantity - fill.quantity ≤ (positionAfter fill position).availableQuantity) ∧
    (fill.side = .buy →
      position.availableQuantity ≤ (positionAfter fill position).availableQuantity) := by
  unfold positionAfter
  constructor
  · intro hside
    have hsigned : ¬(0 ≤ -fill.quantity) := by linarith
    simp only [hside, reduceCtorEq, if_false, hsigned, neg_neg]
    exact le_max_right _ _
  · intro hside
    simp only [hside, if_true, hquantity.le]
    change _ ≤ position.totalQuantity + fill.quantity
    linarith

theorem positionAfter_sound
    (hsound : 0 ≤ position.availableQuantity ∧ position.availableQuantity ≤ position.totalQuantity) :
    0 ≤ (positionAfter fill position).availableQuantity ∧
      (positionAfter fill position).availableQuantity ≤ (positionAfter fill position).totalQuantity := by
  obtain ⟨hnonneg, hle⟩ := hsound
  unfold positionAfter
  dsimp only
  generalize (if fill.side = .buy then fill.quantity else -fill.quantity) = signedQuantity
  split
  · rename_i hsigned
    change 0 ≤ position.totalQuantity + _ ∧ position.totalQuantity + _ ≤ position.totalQuantity + _
    exact ⟨by linarith, le_refl _⟩
  · refine ⟨le_max_left _ _, ?_⟩
    exact max_le_max (le_refl _) (sub_le_sub_right hle _)

section Rows

variable {symbol : Symbol}

/-- The row `_load_or_create` finds belongs to the account and the code. -/
theorem localPosition_key : (localPosition s account symbol).accountId = account ∧
      (localPosition s account symbol).symbol.code = symbol.code := by
  unfold localPosition loadOrCreate
  cases hfind : (listLocal s account).find? fun pos => pos.symbol.code = symbol.code with
  | none => exact ⟨rfl, rfl⟩
  | some pos =>
    have hmem := mem_of_find?_eq_some hfind
    have hcode := find?_some hfind
    simp only [listLocal, mem_filter, decide_eq_true_eq] at hmem hcode
    exact ⟨hmem.2, hcode⟩

theorem localPosition_availableQuantity : (localPosition s account symbol).availableQuantity =
      availableQuantity s account symbol.code := by
  unfold localPosition loadOrCreate availableQuantity
  cases (listLocal s account).find? fun pos => pos.symbol.code = symbol.code <;> rfl

theorem localPosition_sound (h : PositionsSound s) :
    0 ≤ (localPosition s account symbol).availableQuantity ∧
      (localPosition s account symbol).availableQuantity ≤
        (localPosition s account symbol).totalQuantity := by
  unfold localPosition loadOrCreate
  cases hfind : (listLocal s account).find? fun pos => pos.symbol.code = symbol.code with
  | none => exact ⟨le_refl _, le_refl _⟩
  | some pos => exact h pos (mem_filter.mp (mem_of_find?_eq_some hfind)).1

theorem writePosition_key (position row : Position) :
    (writePosition position row).accountId = row.accountId ∧
      (writePosition position row).symbol.code = row.symbol.code := by
  unfold writePosition
  split <;> exact ⟨rfl, rfl⟩

/-- Writing in place leaves the first row of a code where it is. -/
theorem find?_listLocal_map (code : String) :
    (listLocal { s with positions := s.positions.map (writePosition position) } account).find?
        (fun pos => pos.symbol.code = code) =
      ((listLocal s account).find? fun pos => pos.symbol.code = code).map
        (writePosition position) := by
  unfold listLocal
  dsimp only
  rw [filter_map, find?_map]
  have haccount : ((fun row : Position => decide (row.accountId = account)) ∘
      writePosition position) = fun row => decide (row.accountId = account) := by
    funext row
    simp [(writePosition_key position row).1]
  have hcode : ((fun pos : Position => decide (pos.symbol.code = code)) ∘
      writePosition position) = fun pos => decide (pos.symbol.code = code) := by
    funext pos
    simp [(writePosition_key position pos).2]
  rw [haccount, hcode]

theorem samePosition_of_find? {pos : Position}
    (hkey : position.accountId = (localPosition s account symbol).accountId ∧
      position.symbol = (localPosition s account symbol).symbol ∧
      position.positionSide = (localPosition s account symbol).positionSide)
    (hfind : (listLocal s account).find? (fun pos => pos.symbol.code = symbol.code) = some pos) :
    samePosition position pos = true := by
  have hlocal : localPosition s account symbol = pos := by
    unfold localPosition loadOrCreate
    rw [hfind]
    rfl
  rw [hlocal] at hkey
  simp [samePosition, hkey.1, hkey.2.1, hkey.2.2]

/-- Storing a position under the key of the local row: the code finds the written row, every
other code finds what it found before. -/
theorem find?_upsertLocal (hkey : position.accountId = (localPosition s account symbol).accountId ∧
      position.symbol = (localPosition s account symbol).symbol ∧
      position.positionSide = (localPosition s account symbol).positionSide) (code : String) :
    (listLocal (upsertLocal position s) account).find? (fun pos => pos.symbol.code = code) =
      if code = symbol.code then
        some ((((listLocal s account).find? fun pos => pos.symbol.code = code).map
          (writePosition position)).getD position)
      else (listLocal s account).find? fun pos => pos.symbol.code = code := by
  have hlocal : (localPosition s account symbol).accountId = account ∧
      (localPosition s account symbol).symbol.code = symbol.code := localPosition_key
  have haccount : position.accountId = account := hkey.1.trans hlocal.1
  have hcode : position.symbol.code = symbol.code := by rw [hkey.2.1]; exact hlocal.2
  unfold upsertLocal
  by_cases hany : s.positions.any (samePosition position) = true
  · rw [if_pos hany, find?_listLocal_map]
    by_cases hsame : code = symbol.code
    · rw [if_pos hsame, hsame]
      cases hfind : (listLocal s account).find? fun pos => pos.symbol.code = symbol.code with
      | some pos => rfl
      | none =>
        obtain ⟨row, hmem, hrow⟩ := any_eq_true.mp hany
        simp only [samePosition, Bool.and_eq_true, decide_eq_true_eq] at hrow
        have habsent := find?_eq_none.mp hfind row
          (mem_filter.mpr ⟨hmem, by simp [hrow.1.1, haccount]⟩)
        simp [hrow.1.2, hcode] at habsent
    · rw [if_neg hsame]
      cases hfind : (listLocal s account).find? fun pos => pos.symbol.code = code with
      | none => rfl
      | some pos =>
        have hpos : pos.symbol.code = code := by simpa using find?_some hfind
        have hother : samePosition position pos = false := by
          simp [samePosition, hpos, hcode, hsame]
        simp [writePosition, hother]
  · rw [if_neg hany]
    have hrows : listLocal { s with positions := s.positions ++ [position] } account =
        listLocal s account ++ [position] := by
      simp [listLocal, filter_append, haccount]
    rw [hrows, find?_append]
    by_cases hsame : code = symbol.code
    · rw [if_pos hsame, hsame]
      cases hfind : (listLocal s account).find? fun pos => pos.symbol.code = symbol.code with
      | none => simp [hcode]
      | some pos =>
        refine absurd (any_eq_true.mpr ⟨pos, ?_, samePosition_of_find? hkey hfind⟩) hany
        exact (mem_filter.mp (mem_of_find?_eq_some hfind)).1
    · rw [if_neg hsame]
      have hother : position.symbol.code ≠ code := fun h => hsame (h.symm.trans hcode)
      cases (listLocal s account).find? fun pos => pos.symbol.code = code <;> simp [hother]

theorem availableQuantity_upsertLocal
    (hkey : position.accountId = (localPosition s account symbol).accountId ∧
      position.symbol = (localPosition s account symbol).symbol ∧
      position.positionSide = (localPosition s account symbol).positionSide) (code : String) :
    availableQuantity (upsertLocal position s) account code =
      if code = symbol.code then position.availableQuantity else availableQuantity s account code := by
  unfold availableQuantity
  rw [find?_upsertLocal hkey]
  by_cases hsame : code = symbol.code
  · rw [if_pos hsame, if_pos hsame, hsame]
    cases hfind : (listLocal s account).find? fun pos => pos.symbol.code = symbol.code with
    | none => rfl
    | some pos => simp [writePosition, samePosition_of_find? hkey hfind]
  · rw [if_neg hsame, if_neg hsame]

theorem localPosition_upsertLocal
    (hkey : position.accountId = (localPosition s account symbol).accountId ∧
      position.symbol = (localPosition s account symbol).symbol ∧
      position.positionSide = (localPosition s account symbol).positionSide) :
    (localPosition (upsertLocal position s) account symbol).totalQuantity = position.totalQuantity ∧
      (localPosition (upsertLocal position s) account symbol).availableQuantity =
        position.availableQuantity ∧
      (localPosition (upsertLocal position s) account symbol).averagePrice = position.averagePrice := by
  have hfound := find?_upsertLocal hkey symbol.code
  rw [if_pos rfl] at hfound
  unfold localPosition loadOrCreate
  rw [hfound]
  cases hfind : (listLocal s account).find? fun pos => pos.symbol.code = symbol.code with
  | none => exact ⟨rfl, rfl, rfl⟩
  | some pos => simp [writePosition, samePosition_of_find? hkey hfind]

theorem PositionsSound.upsertLocal (h : PositionsSound s)
    (hsound : 0 ≤ position.availableQuantity ∧ position.availableQuantity ≤ position.totalQuantity) :
    PositionsSound (Persistence.upsertLocal position s) := by
  unfold Persistence.upsertLocal
  split
  · intro row hmem
    obtain ⟨old, hold, rfl⟩ := mem_map.mp hmem
    unfold writePosition
    split
    · exact hsound
    · exact h old hold
  · intro row hmem
    rcases mem_append.mp hmem with hold | hnew
    · exact h row hold
    · obtain rfl := mem_singleton.mp hnew
      exact hsound

end Rows

/-- What `apply_fill` does to the available quantities: a sale takes at most its quantity from
its own code, and nothing else is lowered. -/
theorem availableQuantity_applyFill (hquantity : 0 < fill.quantity) (hsound : PositionsSound s)
    (code : String) : availableQuantity s account code -
        (if fill.side = .sell ∧ code = fill.symbol.code then fill.quantity else 0) ≤ availableQuantity
        (upsertLocal (positionAfter fill (localPosition s account fill.symbol)) s) account code := by
  have hlocal : (localPosition s account fill.symbol).availableQuantity =
      availableQuantity s account fill.symbol.code := localPosition_availableQuantity
  have hle : (localPosition s account fill.symbol).availableQuantity ≤
      (localPosition s account fill.symbol).totalQuantity := (localPosition_sound hsound).2
  obtain ⟨hsell, hbuy⟩ := availableQuantity_positionAfter hquantity hle
  rw [availableQuantity_upsertLocal (positionAfter_key fill _)]
  by_cases hsame : code = fill.symbol.code
  · rw [if_pos hsame, hsame, ← hlocal]
    cases hside : fill.side with
    | buy =>
      simp only [reduceCtorEq, false_and, if_false, sub_zero]
      exact hbuy hside
    | sell =>
      simp only [true_and, if_true]
      exact hsell hside
  · rw [if_neg hsame]
    simp [hsame]

end FinDashboard.Core
