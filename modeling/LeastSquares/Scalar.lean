/-
LeastSquares.Scalar — the numbers that the library computes with.

Everything numeric below is written once, over a type `K` with the operations of
`Scalar K` and no laws. Two instances matter. Over `Float` the definitions run,
and what they return is what IEEE arithmetic gives in the order in which the
operations are written. Over the real numbers the same definitions are the
textbook formulas, so a statement about exact arithmetic and one about rounded
arithmetic speak of the same program.

A constant is written as a decimal literal: over `Float` it is the nearest
double, over the reals the number itself.
-/

namespace LeastSquares

/-- The operations of real analysis that an expression or a solver may use. The class has
no laws: `≤` need not be total and `0 / 0` need not be a number. -/
class Scalar (K : Type) extends Add K, Sub K, Mul K, Div K, Neg K, Zero K, One K,
    OfScientific K, BEq K, LT K, LE K where
  decideLT : ∀ a b : K, Decidable (a < b)
  decideLE : ∀ a b : K, Decidable (a ≤ b)
  /-- The result that stands for no number at all. -/
  nan : K
  isNaN : K → Bool
  isFinite : K → Bool
  abs : K → K
  sqrt : K → K
  /-- The cube root. -/
  cbrt : K → K
  exp : K → K
  /-- The natural logarithm. -/
  log : K → K
  sin : K → K
  cos : K → K
  tan : K → K
  asin : K → K
  acos : K → K
  atan : K → K
  pow : K → K → K

namespace Scalar

variable {K : Type} [Scalar K]

instance (a b : K) : Decidable (a < b) := decideLT a b

instance (a b : K) : Decidable (a ≤ b) := decideLE a b

/-- The larger of two numbers. One that is no number loses against any other, and of two that
compare equal, such as the two zeros, the second one is taken. -/
def max (a b : K) : K :=
  if isNaN b = true ∨ b < a then a else b

/-- The smaller of two numbers. One that is no number loses against any other, and of two that
compare equal, such as the two zeros, the second one is taken. -/
def min (a b : K) : K :=
  if isNaN b = true ∨ a < b then a else b

end Scalar

/-- IEEE doubles. Addition, subtraction, multiplication, division and the square root round to
the nearest double. -/
instance : Scalar Float where
  zero := 0.0
  one := 1.0
  decideLT := Float.decLt
  decideLE := Float.decLe
  nan := 0.0 / 0.0
  isNaN := Float.isNaN
  isFinite := Float.isFinite
  abs := Float.abs
  sqrt := Float.sqrt
  cbrt := Float.cbrt
  exp := Float.exp
  log := Float.log
  sin := Float.sin
  cos := Float.cos
  tan := Float.tan
  asin := Float.asin
  acos := Float.acos
  atan := Float.atan
  pow := Float.pow

end LeastSquares
