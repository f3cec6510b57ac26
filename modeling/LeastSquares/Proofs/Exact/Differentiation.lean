/-
LeastSquares.Proofs.Exact.Differentiation — difference quotients, computed exactly.

The quotient of a polynomial of degree three or less over the points `a + h` and `a - h` is its
derivative at `a` and the leading coefficient times `h²` (`centralQuotient_eval`): the terms of even
degree cancel. So a numerical Jacobian has no error where each residual is a polynomial of degree
two or less in each coordinate alone, whatever it is in all of them together
(`numericJacobian_of_polynomials`).
-/
import Mathlib
import LeastSquares.Proofs.Differentiation
import LeastSquares.Proofs.Exact.Linear

namespace LeastSquares

open Polynomial

variable {m n : Nat}

theorem differenceStep_pos (x : ℝ) : 0 < differenceStep x := by
  have hepsilon : (0 : ℝ) < machineEpsilon := by norm_num [machineEpsilon]
  have hcbrt : (0 : ℝ) < Scalar.cbrt machineEpsilon := by
    show 0 < if 0 ≤ machineEpsilon then machineEpsilon ^ (3⁻¹ : ℝ) else _
    rw [if_pos hepsilon.le]
    exact Real.rpow_pos_of_pos hepsilon _
  have hmax : 0 < Scalar.max (Scalar.abs x) 1 := by
    rw [show Scalar.max (Scalar.abs x) 1 = max |x| 1 from Exact.max_eq |x| 1]
    exact one_pos.trans_le (le_max_right _ _)
  exact mul_pos hcbrt hmax

theorem centralQuotient_eq (h u v : ℝ) : centralQuotient h u v = (u - v) / (2 * h) := by
  show (u - v) / ((2.0 : ℝ) * h) = _
  norm_num

/-- The quotient over points at equal distances is wrong by the cubic term only. -/
theorem centralQuotient_eval {q : ℝ[X]} (hq : q.natDegree ≤ 3) (a : ℝ) {h : ℝ} (hh : h ≠ 0) :
    centralQuotient h (q.eval (a + h)) (q.eval (a - h))
      = q.derivative.eval a + q.coeff 3 * h ^ 2 := by
  have heval (t : ℝ) : q.eval t
      = q.coeff 0 + q.coeff 1 * t + q.coeff 2 * t ^ 2 + q.coeff 3 * t ^ 3 := by
    rw [eval_eq_sum_range' (Nat.lt_succ_of_le hq)]
    simp [Finset.sum_range_succ]
  have hderivative : q.derivative.eval a
      = q.coeff 1 + 2 * q.coeff 2 * a + 3 * q.coeff 3 * a ^ 2 := by
    rw [derivative_eval, sum_over_range' _ (by simp) 4 (Nat.lt_succ_of_le hq)]
    simp [Finset.sum_range_succ]
    ring
  rw [centralQuotient_eq, heval, heval, hderivative]
  field_simp
  ring

namespace Problem

variable (p : Problem ℝ n) (steady : ∀ y, (p.evaluate y).count = m)

/-- Residual `i` is the polynomial `q` in coordinate `j`, if the others are those of `x`. -/
def IsPolynomialAlong (i : Fin m) (j : Fin n) (x : Vec ℝ n) (q : ℝ[X]) : Prop :=
  ∀ t, p.residual steady i (x.set j t j.isLt) = q.eval t

/-- The entries of `a` are the partial derivatives of the residuals at `x`. -/
def IsJacobianAt (x : Vec ℝ n) (a : Mat ℝ m n) : Prop :=
  ∀ (i : Fin m) (j : Fin n),
    HasDerivAt (fun t => p.residual steady i (x.set j t j.isLt)) (a.entry i j) (x.get j)

end Problem

variable {p : Problem ℝ n} {steady : ∀ y, (p.evaluate y).count = m} {i : Fin m} {j : Fin n}
  {x : Vec ℝ n} {q : ℝ[X]}

theorem Problem.IsPolynomialAlong.hasDerivAt (h : p.IsPolynomialAlong steady i j x q) :
    HasDerivAt (fun t => p.residual steady i (x.set j t j.isLt)) (q.derivative.eval (x.get j))
      (x.get j) := by
  rw [funext h]
  exact q.hasDerivAt (x.get j)

/-- The difference quotient along a coordinate in which the residual is a polynomial. -/
theorem Problem.IsPolynomialAlong.derivative_eq (h : p.IsPolynomialAlong steady i j x q)
    (hq : q.natDegree ≤ 3) :
    (derivative (M := Id) (fun t => p.residual steady i (x.set j t j.isLt)) (x.get j)).run
      = q.derivative.eval (x.get j) + q.coeff 3 * differenceStep (x.get j) ^ 2 := by
  rw [← centralQuotient_eval hq _ (differenceStep_pos _).ne', funext h]
  rfl

/-- Where each residual is a polynomial of degree two or less in each coordinate, the numerical
Jacobian is the Jacobian. An entry whose residual is a polynomial of degree three in its coordinate
is off by the leading coefficient times the square of the step. -/
theorem numericJacobian_of_polynomials {p : Problem ℝ n} (steady : ∀ y, (p.evaluate y).count = m)
    (x : Vec ℝ n) :
    ∃ a : Mat ℝ m n, (numericJacobian (M := Id) p.evaluate x).run = .ok ⟨m, n, a⟩
      ∧ ((∀ i j, ∃ q, q.natDegree ≤ 2 ∧ p.IsPolynomialAlong steady i j x q) →
        p.IsJacobianAt steady x a)
      ∧ ∀ i j q, q.natDegree ≤ 3 → p.IsPolynomialAlong steady i j x q →
        ∃ d, HasDerivAt (fun t => p.residual steady i (x.set j t j.isLt)) d (x.get j)
          ∧ a.entry i j - d = q.coeff 3 * differenceStep (x.get j) ^ 2 := by
  have hentry (i : Fin m) (j : Fin n) {q : ℝ[X]} (hq : q.natDegree ≤ 3)
      (h : p.IsPolynomialAlong steady i j x q) : (jacobianUpTo steady x n).entry i j
        = q.derivative.eval (x.get j) + q.coeff 3 * differenceStep (x.get j) ^ 2 := by
    rw [entry_jacobianUpTo, h.derivative_eq hq]
  refine ⟨jacobianUpTo steady x n, Checked.numericJacobian_run_of_steady steady x,
    fun quadratic i j => ?_, fun i j q hq h => ⟨_, h.hasDerivAt, ?_⟩⟩
  · obtain ⟨q, hq, h⟩ := quadratic i j
    have hcubic : q.coeff 3 = 0 := coeff_eq_zero_of_natDegree_lt (Nat.lt_succ_of_le hq)
    rw [hentry i j (hq.trans (Nat.le_succ 2)) h, hcubic, zero_mul, add_zero]
    exact h.hasDerivAt
  · rw [hentry i j hq h, add_sub_cancel_left]

/-- The residual `x² y` is no polynomial of degree two, but it is one in each coordinate, and the
numerical Jacobian is `(2 x y, x²)`. For `x³ y` the first entry is too large by `y` times the square
of the step. -/
theorem numericJacobian_of_polynomials_product :
    let p (k : Nat) : Problem ℝ 2 :=
      { evaluate := fun z => ⟨1, #v[z.get 0 ^ k * z.get 1], #v[#v[0, 0]]⟩ }
    let x : Vec ℝ 2 := #v[3, 5]
    (∀ k y, ((p k).evaluate y).count = 1)
      ∧ (numericJacobian (M := Id) (p 2).evaluate x).run = .ok ⟨1, 2, #v[#v[30, 9]]⟩
      ∧ ∃ a : Mat ℝ 1 2, (numericJacobian (M := Id) (p 3).evaluate x).run = .ok ⟨1, 2, a⟩
        ∧ a.entry 0 0 = 135 + 5 * differenceStep (3 : ℝ) ^ 2 := by
  intro p x
  have steady (k : Nat) (y : Vec ℝ 2) : ((p k).evaluate y).count = 1 := rfl
  have first (k : Nat) : (p k).IsPolynomialAlong (steady k) 0 0 x (C 5 * X ^ k) := by
    intro t
    show t ^ k * 5 = _
    rw [eval_mul, eval_C, eval_pow, eval_X, mul_comm]
  have second (k : Nat) : (p k).IsPolynomialAlong (steady k) 0 1 x (C (3 ^ k) * X) := by
    intro t
    show 3 ^ k * t = _
    rw [eval_mul, eval_C, eval_X]
  have hfirst (k : Nat) : (C 5 * X ^ k : ℝ[X]).natDegree ≤ k := natDegree_C_mul_X_pow_le 5 k
  have hsecond (k : Nat) : (C (3 ^ k) * X : ℝ[X]).natDegree ≤ 2 :=
    (natDegree_C_mul_le _ _).trans (natDegree_X_le.trans one_le_two)
  refine ⟨steady, ?_, ?_⟩
  · obtain ⟨a, hrun, hjacobian, -⟩ := numericJacobian_of_polynomials (steady 2) x
    have ha := hjacobian fun i j => by
      obtain rfl : i = 0 := Subsingleton.elim _ _
      fin_cases j
      · exact ⟨_, hfirst 2, first 2⟩
      · exact ⟨_, hsecond 2, second 2⟩
    have h0 : a.entry 0 0 = 30 := by
      rw [(ha 0 0).unique (first 2).hasDerivAt]
      norm_num [x, Vector.get]
    have h1 : a.entry 0 1 = 9 := by
      rw [(ha 0 1).unique (second 2).hasDerivAt]
      norm_num
    rw [hrun]
    refine congrArg (fun a => Except.ok (SizedMat.mk 1 2 a)) (Mat.ext_entry fun i j => ?_)
    obtain rfl : i = 0 := Subsingleton.elim _ _
    fin_cases j
    · exact h0
    · exact h1
  · obtain ⟨a, hrun, -, hcubic⟩ := numericJacobian_of_polynomials (steady 3) x
    obtain ⟨d, hd, herror⟩ := hcubic 0 0 _ (hfirst 3) (first 3)
    refine ⟨a, hrun, ?_⟩
    rw [hd.unique (first 3).hasDerivAt, sub_eq_iff_eq_add'] at herror
    rw [herror]
    norm_num [x, Vector.get]

end LeastSquares
