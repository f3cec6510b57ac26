/-
LeastSquares.Proofs.Ordered — what a solver may rely on when it compares numbers.

Rounded numbers are in the order of the numbers that they stand for, but they are no ordered field:
`a < b` says nothing about `a + c` and `b + c`. The laws of `OrderedScalar` are the few that hold of
doubles and of real numbers alike, and they are all that the proofs about descent use.

What is no number is in no order with anything, so the negation of `a < b` is not `b ≤ a`. It is if
both are known to be numbers (`le_of_not_lt`), and most lemmas with a negation ask for that.
-/
import LeastSquares.Proofs.Exact
import LeastSquares.Proofs.Double.Arithmetic

namespace LeastSquares

/-- Numbers, rounded or exact, that are in the order of the numbers they stand for. -/
class OrderedScalar (K : Type) [Scalar K] where
  /-- The extended real number that a number stands for. -/
  value : K → EReal
  lt_iff {a b : K} : a < b ↔
    Scalar.isNaN a = false ∧ Scalar.isNaN b = false ∧ value a < value b
  le_iff {a b : K} : a ≤ b ↔
    Scalar.isNaN a = false ∧ Scalar.isNaN b = false ∧ value a ≤ value b
  isNaN_zero : Scalar.isNaN (0 : K) = false
  zero_add_zero : (0 : K) + 0 = 0
  half_zero : 0.5 * (0 : K) = 0
  isNaN_of_isFinite {a : K} : Scalar.isFinite a = true → Scalar.isNaN a = false
  /-- A difference is positive only if the first number is the larger one. -/
  lt_of_sub_pos {a b : K} : 0 < a - b → b < a
  /-- A quotient by a positive number is positive only if the dividend is. -/
  pos_of_div_pos {a b : K} : 0 < b → 0 < a / b → 0 < a
  isNaN_half (a : K) : Scalar.isNaN (0.5 * a) = Scalar.isNaN a
  half_le_half {a b : K} : a ≤ b → 0.5 * a ≤ 0.5 * b
  add_nonneg {a b : K} : 0 ≤ a → 0 ≤ b → 0 ≤ a + b
  mul_self_nonneg {a : K} : Scalar.isNaN a = false → 0 ≤ a * a

namespace OrderedScalar

variable {K : Type} [Scalar K] [OrderedScalar K] {a b c : K}

theorem le_refl (h : Scalar.isNaN a = false) : a ≤ a :=
  le_iff.2 ⟨h, h, le_rfl⟩

theorem le_of_lt (h : a < b) : a ≤ b := by
  obtain ⟨ha, hb, hlt⟩ := lt_iff.1 h
  exact le_iff.2 ⟨ha, hb, hlt.le⟩

theorem lt_trans (hab : a < b) (hbc : b < c) : a < c := by
  obtain ⟨ha, -, h₁⟩ := lt_iff.1 hab
  obtain ⟨-, hc, h₂⟩ := lt_iff.1 hbc
  exact lt_iff.2 ⟨ha, hc, h₁.trans h₂⟩

theorem lt_of_le_of_lt (hab : a ≤ b) (hbc : b < c) : a < c := by
  obtain ⟨ha, -, h₁⟩ := le_iff.1 hab
  obtain ⟨-, hc, h₂⟩ := lt_iff.1 hbc
  exact lt_iff.2 ⟨ha, hc, h₁.trans_lt h₂⟩

theorem lt_of_lt_of_le (hab : a < b) (hbc : b ≤ c) : a < c := by
  obtain ⟨ha, -, h₁⟩ := lt_iff.1 hab
  obtain ⟨-, hc, h₂⟩ := le_iff.1 hbc
  exact lt_iff.2 ⟨ha, hc, h₁.trans_le h₂⟩

theorem le_of_not_lt (ha : Scalar.isNaN a = false) (hb : Scalar.isNaN b = false) (h : ¬ a < b) :
    b ≤ a :=
  le_iff.2 ⟨hb, ha, not_lt.1 fun hlt => h (lt_iff.2 ⟨ha, hb, hlt⟩)⟩

theorem not_lt_of_le (h : a ≤ b) : ¬ b < a := fun hlt =>
  absurd (lt_iff.1 hlt).2.2 (le_iff.1 h).2.2.not_gt

theorem lt_of_half_lt_half (h : 0.5 * a < 0.5 * b) : a < b := by
  obtain ⟨ha, hb, -⟩ := lt_iff.1 h
  rw [isNaN_half] at ha hb
  by_contra hlt
  exact not_lt_of_le (half_le_half (le_of_not_lt ha hb hlt)) h

end OrderedScalar

/-! ## Doubles and real numbers

For doubles each law is a theorem about rounding. Real numbers are all numbers, and stand for
themselves. -/

noncomputable instance : OrderedScalar Float where
  value := Double.value
  lt_iff := Double.lt_iff_value
  le_iff := Double.le_iff_value
  isNaN_zero := rfl
  zero_add_zero := by decide +kernel
  half_zero := by decide +kernel
  isNaN_of_isFinite := Double.isNaN_of_isFinite
  lt_of_sub_pos := Double.lt_of_sub_pos
  pos_of_div_pos := Double.pos_of_div_pos
  isNaN_half := Double.isNaN_half
  half_le_half := Double.half_le_half
  add_nonneg := Double.add_nonneg
  mul_self_nonneg := Double.mul_self_nonneg

noncomputable instance : OrderedScalar ℝ where
  value x := x
  lt_iff := by simp [Scalar.isNaN]
  le_iff := by simp [Scalar.isNaN]
  isNaN_zero := rfl
  zero_add_zero := add_zero 0
  half_zero := mul_zero _
  isNaN_of_isFinite _ := rfl
  lt_of_sub_pos := sub_pos.1
  pos_of_div_pos hb h := (div_pos_iff_of_pos_right hb).1 h
  isNaN_half _ := rfl
  half_le_half {a b} h := by
    show (0.5 : ℝ) * a ≤ 0.5 * b
    linarith
  add_nonneg := add_nonneg
  mul_self_nonneg {a} _ := mul_self_nonneg a

end LeastSquares
