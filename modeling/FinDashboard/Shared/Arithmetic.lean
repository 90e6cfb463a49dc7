import Mathlib.Data.Int.Cast.Defs
import Mathlib.Order.Defs.LinearOrder

/-!
# Float arithmetic

The research code computes with floats. Its definitions are stated over any numbers with the operations
they use and no laws, so that what is proved without laws holds of floats; where a result is about exact
arithmetic, the numbers are an ordered field.
-/

namespace FinDashboard

/-- The functions of the float arithmetic that are not operators. -/
structure FloatMath (K : Type) where
  sqrt : K → K
  /-- `int`, which drops the fraction. -/
  truncate : K → ℤ
  /-- The built-in `sum`. -/
  sum : List K → K

variable {K : Type}

/-- The built-in `max` of two values. -/
def pyMax [LT K] [DecidableLT K] (a b : K) : K := if a < b then b else a

/-- The built-in `min` of two values. -/
def pyMin [LT K] [DecidableLT K] (a b : K) : K := if b < a then b else a

/-- The built-in `abs`. -/
def pyAbs [Zero K] [Neg K] [LT K] [DecidableLT K] (a : K) : K := if a < 0 then -a else a

def basisPoints [NatCast K] [Div K] (bps : K) : K := bps / ((10000 : ℕ) : K)

end FinDashboard
