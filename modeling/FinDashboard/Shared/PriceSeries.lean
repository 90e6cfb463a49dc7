import Mathlib.Data.List.Nodup

/-!
# Price series

The backtests read the closes, opens and volumes of a set of symbols bar by bar.
-/

namespace FinDashboard

/-- The price series by symbol, in the order of the sorted symbols; a symbol without a series has an
empty one. -/
structure Prices (K : Type) where
  symbols : List String
  closes : String → List K
  opens : String → List K
  volumes : String → List K
  nodup : symbols.Nodup

/-- Two price histories with the same symbols whose closes agree before bar `m`, and whose opens and
volumes agree before bar `n`. -/
structure Prices.Agree {K : Type} (m n : ℕ) (a b : Prices K) : Prop where
  symbols : a.symbols = b.symbols
  closes : ∀ symbol, ∀ i < m, (a.closes symbol)[i]? = (b.closes symbol)[i]?
  opens : ∀ symbol, ∀ i < n, (a.opens symbol)[i]? = (b.opens symbol)[i]?
  volumes : ∀ symbol, ∀ i < n, (a.volumes symbol)[i]? = (b.volumes symbol)[i]?

/-- The last so many elements. -/
def lastOf {α : Type} (count : ℕ) (values : List α) : List α := values.drop (values.length - count)

/-- Lists that agree at the first places start the same. -/
theorem take_congr {α : Type} {n : ℕ} {first second : List α}
    (same : ∀ i < n, first[i]? = second[i]?) : first.take n = second.take n := by
  apply List.ext_getElem?
  intro i
  by_cases early : i < n
  · rw [List.getElem?_take_of_lt early, List.getElem?_take_of_lt early, same i early]
  · rw [List.getElem?_take_eq_none (by omega), List.getElem?_take_eq_none (by omega)]

namespace Prices

variable {K : Type} {m n k : ℕ} {a b : Prices K}

theorem Agree.mono {m' n' : ℕ} (agree : Agree m n a b) (fewer : m' ≤ m) (less : n' ≤ n) :
    Agree m' n' a b where
  symbols := agree.symbols
  closes symbol i early := agree.closes symbol i (by omega)
  opens symbol i early := agree.opens symbol i (by omega)
  volumes symbol i early := agree.volumes symbol i (by omega)

section Reads

variable [Zero K]

def closeAt (prices : Prices K) (symbol : String) (barIndex : ℕ) : K :=
  (prices.closes symbol)[barIndex]?.getD 0

/-- The close of the bar before, zero at the first bar. -/
def prevClose (prices : Prices K) (symbol : String) (barIndex : ℕ) : K :=
  if barIndex < 1 then 0 else prices.closeAt symbol (barIndex - 1)

def volumeAt (prices : Prices K) (symbol : String) (barIndex : ℕ) : K :=
  (prices.volumes symbol)[barIndex]?.getD 0

theorem closeAt_congr (agree : Agree (k + 1) 0 a b) (symbol : String) :
    a.closeAt symbol k = b.closeAt symbol k := by
  simp only [closeAt, agree.closes symbol k (by omega)]

theorem prevClose_congr (agree : Agree (k + 1) 0 a b) (symbol : String) :
    a.prevClose symbol k = b.prevClose symbol k := by
  unfold prevClose
  by_cases first : k < 1
  · rw [if_pos first, if_pos first]
  · rw [if_neg first, if_neg first, closeAt, closeAt, agree.closes symbol (k - 1) (by omega)]

end Reads

end Prices

end FinDashboard
