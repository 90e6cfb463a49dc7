import FinDashboard.Tsmom.Fills
import Mathlib.Algebra.Order.Field.Basic
import Mathlib.Tactic.Ring

/-!
# The profit of the lots

Every lot a run opens has the price it was bought or sold at and, once closed, the price it left at. The
profit of the lots is what the trades earned, with the lots still held valued at given prices.
-/

namespace FinDashboard.Tsmom

open Ledger Runs List

/-- One lot, with the price it left at once it is closed. -/
structure Lot (K : Type) where
  symbol : String
  isLong : Bool
  entryPrice : K
  exitPrice : Option K := none

variable {K : Type}

namespace Lot

def held (symbol : String) (isLong : Bool) (lot : Lot K) : Bool :=
  lot.symbol = symbol ∧ lot.isLong = isLong ∧ lot.exitPrice.isNone

def leave (lot : Lot K) (price : K) : Lot K := { lot with exitPrice := some price }

end Lot

def heldCount (symbol : String) (isLong : Bool) (lots : List (Lot K)) : ℕ :=
  lots.countP (Lot.held symbol isLong)

def closeLots (symbol : String) (isLong : Bool) (price : K) : ℕ → List (Lot K) → List (Lot K)
  | 0, lots => lots
  | _ + 1, [] => []
  | count + 1, lot :: rest =>
    if lot.held symbol isLong then lot.leave price :: closeLots symbol isLong price count rest
    else lot :: closeLots symbol isLong price (count + 1) rest

def tradeLots (lots : List (Lot K)) (trade : FuturesTrade K) : List (Lot K) :=
  match trade.action with
  | .openLong | .openShort =>
    lots ++ replicate trade.lots.toNat
      { symbol := trade.symbol, isLong := trade.action.isLong, entryPrice := trade.fillPrice }
  | .closeLong | .closeShort =>
    closeLots trade.symbol trade.action.isLong trade.fillPrice trade.lots.toNat lots
  | .roll => lots

def lotsOf (trades : List (FuturesTrade K)) : List (Lot K) := trades.foldl tradeLots []

theorem lotsOf_append (trades : List (FuturesTrade K)) (trade : FuturesTrade K) :
    lotsOf (trades ++ [trade]) = tradeLots (lotsOf trades) trade := by
  unfold lotsOf
  rw [foldl_append]
  rfl

variable {lots : List (Lot K)}

section Held

variable {symbol other : String} {isLong side : Bool} {price : K} {count : ℕ}

theorem heldCount_replicate (entryPrice : K) :
    heldCount other side (replicate count { symbol, isLong, entryPrice }) =
      if side = isLong ∧ other = symbol then count else 0 := by
  unfold heldCount
  rw [countP_replicate]
  have meets : Lot.held other side { symbol, isLong, entryPrice } = true ↔
      side = isLong ∧ other = symbol := by
    simp only [Lot.held, Option.isNone_none, decide_eq_true_eq, and_true]
    exact ⟨fun ⟨same, own⟩ => ⟨own.symm, same.symm⟩, fun ⟨own, same⟩ => ⟨same.symm, own.symm⟩⟩
  simp only [meets]

theorem heldCount_cons (lot : Lot K) (lots : List (Lot K)) : heldCount symbol isLong (lot :: lots) =
      heldCount symbol isLong lots + if lot.held symbol isLong then 1 else 0 :=
  countP_cons

theorem heldCount_append (lots more : List (Lot K)) : heldCount symbol isLong (lots ++ more) =
      heldCount symbol isLong lots + heldCount symbol isLong more :=
  countP_append

theorem Lot.held_iff {lot : Lot K} (here : lot.held symbol isLong = true) :
    lot.held other side = true ↔ side = isLong ∧ other = symbol := by
  simp only [Lot.held, decide_eq_true_eq] at here ⊢
  obtain ⟨rfl, rfl, inside⟩ := here
  constructor
  · rintro ⟨same, own, -⟩
    exact ⟨own.symm, same.symm⟩
  · rintro ⟨own, same⟩
    exact ⟨same.symm, own.symm, inside⟩

theorem Lot.held_leave (lot : Lot K) : (lot.leave price).held other side = false := by
  simp [Lot.held, Lot.leave]

theorem heldCount_closeLots (other : String) (side : Bool) (price : K)
    (enough : count ≤ heldCount symbol isLong lots) :
    heldCount other side (closeLots symbol isLong price count lots) +
        (if side = isLong ∧ other = symbol then count else 0) = heldCount other side lots := by
  induction lots generalizing count with
  | nil =>
    obtain rfl : count = 0 := Nat.le_zero.mp enough
    rw [ite_self, Nat.add_zero]
    rfl
  | cons lot rest ih =>
    cases count with
    | zero => rw [ite_self, Nat.add_zero, closeLots]
    | succ count =>
      rw [heldCount_cons] at enough
      unfold closeLots
      by_cases here : lot.held symbol isLong = true
      · rw [if_pos here] at enough
        have fewer := @ih count (by omega)
        rw [if_pos here, heldCount_cons, heldCount_cons, Lot.held_leave]
        by_cases own : side = isLong ∧ other = symbol
        · rw [if_pos own] at fewer
          rw [if_pos own, if_pos ((Lot.held_iff here).mpr own), if_neg Bool.false_ne_true]
          omega
        · rw [if_neg own] at fewer
          rw [if_neg own, if_neg fun held => own ((Lot.held_iff here).mp held), if_neg Bool.false_ne_true]
          omega
      · rw [if_neg here] at enough
        have fewer := @ih (count + 1) (by omega)
        rw [if_neg here, heldCount_cons, heldCount_cons]
        omega

theorem symbols_closeLots (lots : List (Lot K)) :
    (closeLots symbol isLong price count lots).map (·.symbol) = lots.map (·.symbol) := by
  induction lots generalizing count with
  | nil => cases count <;> rfl
  | cons lot rest ih =>
    cases count with
    | zero => rfl
    | succ count =>
      unfold closeLots
      split
      · exact congrArg (lot.symbol :: ·) ih
      · exact congrArg (lot.symbol :: ·) ih

end Held

section Profit

variable [Field K]

/-- One on the long side, minus one on the short side. -/
def direction (isLong : Bool) : K := if isLong then 1 else -1

/-- What a lot has earned, at given closes where it is still held. -/
def Lot.profit (multiplier close : String → K) (lot : Lot K) : K :=
  (lot.exitPrice.getD (close lot.symbol) - lot.entryPrice) * multiplier lot.symbol *
    direction lot.isLong

def profitOf (multiplier close : String → K) (lots : List (Lot K)) : K :=
  (lots.map (Lot.profit multiplier close)).sum

/-- The lots held on the long side less those held on the short side. -/
def netHeld (lots : List (Lot K)) (symbol : String) : K :=
  (heldCount symbol true lots : K) - (heldCount symbol false lots : K)

variable {multiplier close later : String → K} {symbol : String} {isLong : Bool} {price : K}
  {count : ℕ}

theorem profitOf_append (lots more : List (Lot K)) : profitOf multiplier close (lots ++ more) =
      profitOf multiplier close lots + profitOf multiplier close more := by
  unfold profitOf
  rw [map_append, sum_append]

theorem profitOf_replicate (entryPrice : K) :
    profitOf multiplier close (replicate count { symbol, isLong, entryPrice }) =
      count * ((close symbol - entryPrice) * multiplier symbol * direction isLong) := by
  unfold profitOf
  rw [map_replicate, sum_replicate, nsmul_eq_mul]
  rfl

/-- A lot that leaves at another price than its close earns the difference. -/
theorem profitOf_closeLots (enough : count ≤ heldCount symbol isLong lots) :
    profitOf multiplier close (closeLots symbol isLong price count lots) =
      profitOf multiplier close lots +
        count * ((price - close symbol) * multiplier symbol * direction isLong) := by
  induction lots generalizing count with
  | nil =>
    obtain rfl : count = 0 := Nat.le_zero.mp enough
    rw [closeLots, Nat.cast_zero, zero_mul, add_zero]
  | cons lot rest ih =>
    cases count with
    | zero => rw [closeLots, Nat.cast_zero, zero_mul, add_zero]
    | succ count =>
      rw [heldCount_cons] at enough
      unfold closeLots
      by_cases here : lot.held symbol isLong = true
      · rw [if_pos here] at enough ⊢
        have others := @ih count (by omega)
        have one : (lot.leave price).profit multiplier close =
            lot.profit multiplier close +
              (price - close symbol) * multiplier symbol * direction isLong := by
          simp only [Lot.held, decide_eq_true_eq, Option.isNone_iff_eq_none] at here
          obtain ⟨rfl, rfl, inside⟩ := here
          simp only [Lot.profit, Lot.leave, inside, Option.getD_some, Option.getD_none]
          ring
        unfold profitOf at others ⊢
        rw [map_cons, sum_cons, map_cons, sum_cons, others, one]
        push_cast
        ring
      · rw [if_neg here] at enough ⊢
        have others := @ih (count + 1) (by omega)
        unfold profitOf at others ⊢
        rw [map_cons, sum_cons, map_cons, sum_cons, others]
        ring

theorem profitOf_later (multiplier close later : String → K) {symbols : List String}
    (nodup : symbols.Nodup) (known : ∀ lot ∈ lots, lot.symbol ∈ symbols) :
    profitOf multiplier later lots = profitOf multiplier close lots + (symbols.map fun symbol =>
          (later symbol - close symbol) * multiplier symbol * netHeld lots symbol).sum := by
  induction lots with
  | nil =>
    have none : (symbols.map fun symbol => (later symbol - close symbol) * multiplier symbol *
        netHeld ([] : List (Lot K)) symbol) = symbols.map fun _ => (0 : K) := by
      apply map_congr_left
      intro symbol _
      simp [netHeld, heldCount]
    rw [none]
    simp [profitOf]
  | cons lot rest ih =>
    have before := ih fun other member => known other (mem_cons_of_mem lot member)
    have net : ∀ symbol, netHeld (lot :: rest) symbol = netHeld rest symbol +
        if lot.symbol = symbol ∧ lot.exitPrice = none then direction lot.isLong else 0 := by
      intro symbol
      unfold netHeld
      rw [heldCount_cons, heldCount_cons]
      by_cases inside : lot.symbol = symbol ∧ lot.exitPrice = none
      · cases side : lot.isLong <;> simp [Lot.held, direction, inside, side] <;> ring
      · have outside : ∀ isLong, lot.held symbol isLong = false := by
          intro isLong
          simp only [Lot.held, decide_eq_false_iff_not, Option.isNone_iff_eq_none]
          exact fun ⟨own, _, still⟩ => inside ⟨own, still⟩
        simp [outside, inside]
    have moved := sum_map_change nodup (known lot mem_cons_self)
      (f := fun symbol => (later symbol - close symbol) * multiplier symbol *
        netHeld (lot :: rest) symbol)
      (g := fun symbol => (later symbol - close symbol) * multiplier symbol * netHeld rest symbol)
      (fun other differ => by
        rw [net, if_neg fun both => differ both.1.symm, add_zero])
    have one : lot.profit multiplier later = lot.profit multiplier close +
        (later lot.symbol - close lot.symbol) * multiplier lot.symbol *
          (if lot.exitPrice = none then direction lot.isLong else 0) := by
      cases inside : lot.exitPrice with
      | none =>
        simp only [Lot.profit, inside, Option.getD_none, if_true]
        ring
      | some exit => simp [Lot.profit, inside]
    unfold profitOf at before ⊢
    rw [map_cons, sum_cons, map_cons, sum_cons, before, one, moved, net]
    simp only [true_and]
    ring

end Profit

end FinDashboard.Tsmom
