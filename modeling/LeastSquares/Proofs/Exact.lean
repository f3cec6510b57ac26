/-
LeastSquares.Proofs.Exact — the library in exact arithmetic.

Over the reals every operation is the function of analysis that it is named after, and the same
definitions that run over doubles are textbook formulas. Outside of its domain such a function has
some real value (`log 0 = 0`, `sqrt (-1) = 0`), so a statement about reals has to keep to the
domain where it matters.
-/
import Mathlib
import LeastSquares.Proofs.Dual

namespace LeastSquares

/-- Exact arithmetic: every result is a finite number. -/
noncomputable instance : Scalar ℝ where
  decideLT := Classical.decRel _
  decideLE := Classical.decRel _
  beq a b := @decide (a = b) (Classical.dec _)
  nan := 0
  isNaN _ := false
  isFinite _ := true
  abs x := |x|
  sqrt := Real.sqrt
  cbrt x := if 0 ≤ x then x ^ (3⁻¹ : ℝ) else -(-x) ^ (3⁻¹ : ℝ)
  exp := Real.exp
  log := Real.log
  sin := Real.sin
  cos := Real.cos
  tan := Real.tan
  asin := Real.arcsin
  acos := Real.arccos
  atan := Real.arctan
  pow x y := x ^ y

namespace Exact

theorem beq_eq_false_iff {a b : ℝ} : (a == b) = false ↔ a ≠ b := by
  show @decide (a = b) (Classical.dec _) = false ↔ a ≠ b
  rw [@decide_eq_false_iff_not (a = b) (Classical.dec _)]

/-- Where the denominator is not zero, the guard makes no difference. -/
theorem quotient_eq {den : ℝ} (h : den ≠ 0) (num : ℝ) : Dual.quotient num den = num / den :=
  Dual.quotient_of_ne_zero (beq_eq_false_iff.2 h) num

/-- The shift cancels, and would do so whatever it is. -/
theorem logSumExp_eq (a b : ℝ) : Dual.LogSumExp.of a b =
    ⟨Real.log (Real.exp a + Real.exp b), Real.exp a / (Real.exp a + Real.exp b),
      Real.exp b / (Real.exp a + Real.exp b)⟩ := by
  have total (m : ℝ) : Real.exp (a - m) + Real.exp (b - m)
      = (Real.exp a + Real.exp b) / Real.exp m := by
    rw [Real.exp_sub, Real.exp_sub, add_div]
  have value (m : ℝ) : m + Real.log (Real.exp (a - m) + Real.exp (b - m))
      = Real.log (Real.exp a + Real.exp b) := by
    rw [total, Real.log_div (by positivity) (by positivity), Real.log_exp]
    ring
  have share (c m : ℝ) : Real.exp (c - m) / (Real.exp (a - m) + Real.exp (b - m))
      = Real.exp c / (Real.exp a + Real.exp b) := by
    rw [total, Real.exp_sub, div_div_div_cancel_right₀ (Real.exp_ne_zero m)]
  show Dual.LogSumExp.mk _ _ _ = _
  rw [Dual.LogSumExp.mk.injEq]
  exact ⟨value _, share a _, share b _⟩

end Exact

end LeastSquares
