/-
LeastSquares.Proofs.Exact.Normal — normal equations, and problems that are affine.

The linear model of a point tells the error at a step `h` from there exactly, if the residuals are
affine: it is the error, plus twice the scalar product of `h` and the gradient, plus the square of
`J h` (`Problem.error_affine_add`). Both solvers look for steps among the solutions of
`(Jᵀ J + c I) d = b` with `c > 0`. The matrix is positive definite, so there is exactly one such
`d`, and its scalar product with any `h` is known (`LinearModel.exists_unique_solution`,
`LinearModel.dot_of_solution`).
-/
import Mathlib
import LeastSquares.Proofs.DogLeg.Verdict
import LeastSquares.Proofs.Exact.Elimination

namespace LeastSquares

variable {m n : Nat}

/-! ## Products and lengths

The vectors of the program are arrays, and their operations are loops. Over the real numbers each
operation is the one that Mathlib has for functions on indices (`Vec.dot_eq`,
`Vec.normSq_eq`, `Mat.get_mulVec_eq`), and its algebra is brought back here. -/

namespace Vec

variable (a b c : Vec ℝ n) (t : ℝ)

theorem dot_self : a.dot a = a.normSq :=
  rfl

theorem dot_comm : a.dot b = b.dot a := by
  rw [dot_eq, dot_eq, dotProduct_comm]

theorem dot_add_left : (a.add b).dot c = a.dot c + b.dot c := by
  simp only [dot_eq, get_add_eq, add_dotProduct]

theorem dot_sub_left : (a.sub b).dot c = a.dot c - b.dot c := by
  simp only [dot_eq, get_sub_eq, sub_dotProduct]

theorem dot_sub_right : a.dot (b.sub c) = a.dot b - a.dot c := by
  simp only [dot_eq, get_sub_eq, dotProduct_sub]

theorem dot_scale_left : (a.scale t).dot b = t * a.dot b := by
  simp only [dot_eq, get_scale_eq, smul_dotProduct, smul_eq_mul]

theorem dot_scale_right : a.dot (b.scale t) = t * a.dot b := by
  rw [dot_comm, dot_scale_left, dot_comm]

/-- A vector of length zero is zero, and so are the products with it. -/
theorem dot_eq_zero (h : b.normSq = 0) : a.dot b = 0 := by
  rw [normSq_eq, dotProduct_self_eq_zero] at h
  rw [dot_eq, h, dotProduct_zero]

theorem normSq_nonneg : 0 ≤ a.normSq := by
  rw [normSq_eq]
  exact Finset.sum_nonneg fun i _ => mul_self_nonneg _

theorem normSq_eq_zero_iff : a.normSq = 0 ↔ ∀ i, a.get i = 0 := by
  rw [normSq_eq, dotProduct_self_eq_zero, funext_iff]
  rfl

theorem normSq_pos {i : Fin n} (h : a.get i ≠ 0) : 0 < a.normSq :=
  a.normSq_nonneg.lt_of_ne' fun hzero => h (a.normSq_eq_zero_iff.1 hzero i)

/-! The squares of a sum and of a difference. -/

theorem normSq_add : (a.add b).normSq = a.normSq + 2 * a.dot b + b.normSq := by
  simp only [normSq_eq, dot_eq, get_add_eq, add_dotProduct, dotProduct_add,
    dotProduct_comm b.get a.get]
  ring

theorem normSq_sub : (a.sub b).normSq = a.normSq - 2 * a.dot b + b.normSq := by
  simp only [normSq_eq, dot_eq, get_sub_eq, sub_dotProduct, dotProduct_sub,
    dotProduct_comm b.get a.get]
  ring

theorem normSq_scale : (a.scale t).normSq = t ^ 2 * a.normSq := by
  simp only [normSq_eq, get_scale_eq, smul_dotProduct, dotProduct_smul, smul_eq_mul]
  ring

theorem norm_nonneg : 0 ≤ a.norm :=
  Real.sqrt_nonneg _

theorem sq_norm : a.norm ^ 2 = a.normSq :=
  Real.sq_sqrt a.normSq_nonneg

/-- On the line the length is the magnitude. -/
theorem norm_eq_abs (x : Vec ℝ 1) : x.norm = |x.get 0| := by
  rw [norm, normSq_eq, dotProduct, Fin.sum_univ_one]
  exact Real.sqrt_mul_self_eq_abs (x.get 0)

end Vec

namespace Mat

variable (A : Mat ℝ m n) (a b : Vec ℝ n)

theorem mulVec_add : A.mulVec (a.add b) = (A.mulVec a).add (A.mulVec b) :=
  Vec.ext_get <| congrFun <| by
    simp only [get_mulVec_eq, Vec.get_add_eq, Matrix.mulVec_add]

theorem mulVec_sub : A.mulVec (a.sub b) = (A.mulVec a).sub (A.mulVec b) :=
  Vec.ext_get <| congrFun <| by
    simp only [get_mulVec_eq, Vec.get_sub_eq, Matrix.mulVec_sub]

theorem mulVec_scale (t : ℝ) : A.mulVec (a.scale t) = (A.mulVec a).scale t :=
  Vec.ext_get <| congrFun <| by
    simp only [get_mulVec_eq, Vec.get_scale_eq, Matrix.mulVec_smul]

theorem identity_mulVec : (identity n).mulVec a = a :=
  Vec.ext_get <| congrFun <| by
    rw [get_mulVec_eq, toMatrix_identity, Matrix.one_mulVec]

end Mat

/-! ## The linear model

The equations are solved for the step, so what they say about it is said by products: with a
direction `h` on the left, `Jᵀ J` becomes a product of two images under `J`, and no transposed
matrix is left. -/

namespace LinearModel

variable (e : Evaluation ℝ n)

/-- The gradient `Jᵀ r`, in Mathlib's terms. -/
theorem get_gradient :
    (ofEvaluation e).gradient.get = e.jacobian.toMatrix.transpose.mulVec e.residuals.get := by
  rw [← Mat.toMatrix_transpose, ← Mat.get_mulVec_eq]
  rfl

/-- The matrix `Jᵀ J + c I`, in Mathlib's terms. -/
theorem toMatrix_shiftedNormal (c : ℝ) : ((ofEvaluation e).shiftedNormal c).toMatrix
    = e.jacobian.toMatrix.transpose * e.jacobian.toMatrix + c • 1 := by
  rw [shiftedNormal, Mat.toMatrix_add, Mat.toMatrix_scale, Mat.toMatrix_identity, ofEvaluation,
    Mat.toMatrix_mul, Mat.toMatrix_transpose]

/-- The gradient is the adjoint of the Jacobian, applied to the residuals. -/
theorem dot_gradient (h : Vec ℝ n) :
    (e.jacobian.mulVec h).dot e.residuals = h.dot (ofEvaluation e).gradient := by
  rw [Vec.dot_eq, Vec.dot_eq, Mat.get_mulVec_eq, get_gradient, Matrix.dotProduct_mulVec,
    Matrix.vecMul_transpose]

/-- The matrix is seen through products with vectors. -/
theorem dot_shiftedNormal (c : ℝ) (h d : Vec ℝ n) :
    h.dot (((ofEvaluation e).shiftedNormal c).mulVec d)
      = (e.jacobian.mulVec h).dot (e.jacobian.mulVec d) + c * h.dot d := by
  rw [Vec.dot_eq, Vec.dot_eq, Vec.dot_eq, Mat.get_mulVec_eq, Mat.get_mulVec_eq, Mat.get_mulVec_eq,
    toMatrix_shiftedNormal, Matrix.add_mulVec, dotProduct_add, ← Matrix.mulVec_mulVec,
    Matrix.dotProduct_mulVec, Matrix.vecMul_transpose, Matrix.smul_mulVec, Matrix.one_mulVec,
    dotProduct_smul, smul_eq_mul]

variable {c : ℝ}

/-- With a positive shift the matrix is positive definite: it takes no vector but zero to zero. -/
theorem det_shiftedNormal_ne_zero (hc : 0 < c) :
    ((ofEvaluation e).shiftedNormal c).toMatrix.det ≠ 0 := by
  intro hdet
  obtain ⟨v, hne, hv⟩ := Matrix.exists_mulVec_eq_zero_iff.2 hdet
  let d : Vec ℝ n := Vector.ofFn v
  have hget : d.get = v := funext (Vec.get_ofFn v)
  have hzero : d.dot (((ofEvaluation e).shiftedNormal c).mulVec d) = 0 := by
    rw [Vec.dot_eq, Mat.get_mulVec_eq, hget, hv, dotProduct_zero]
  rw [dot_shiftedNormal] at hzero
  have hd : 0 < d.normSq := by
    obtain ⟨i, hi⟩ := Function.ne_iff.1 hne
    exact d.normSq_pos (hget ▸ hi)
  have hJd : 0 ≤ (e.jacobian.mulVec d).dot (e.jacobian.mulVec d) := Vec.normSq_nonneg _
  have hcd : 0 < c * d.dot d := mul_pos hc hd
  linarith

/-- With a positive shift the normal equations have a solution. -/
theorem exists_solution (hc : 0 < c) (b : Vec ℝ n) :
    ∃ d, ((ofEvaluation e).shiftedNormal c).solve? b = some d := by
  rw [← Option.ne_none_iff_exists', Ne, Mat.solve?_eq_none_iff]
  exact det_shiftedNormal_ne_zero e hc

/-- There is only one, and elimination finds it. -/
theorem exists_unique_solution (hc : 0 < c) (b : Vec ℝ n) :
    ∃ d, ((ofEvaluation e).shiftedNormal c).solve? b = some d
      ∧ ∀ y, (e.jacobian.toMatrix.transpose * e.jacobian.toMatrix + c • 1).mulVec y = b.get
        ↔ y = d.get := by
  obtain ⟨d, hd⟩ := exists_solution e hc b
  exact ⟨d, hd, toMatrix_shiftedNormal e c ▸ Mat.mulVec_eq_iff_of_solve? hd⟩

variable {e} {b d : Vec ℝ n} (hd : ((ofEvaluation e).shiftedNormal c).solve? b = some d)
include hd

/-- What the normal equations say about their solution, in any direction `h`. -/
theorem dot_of_solution (h : Vec ℝ n) :
    h.dot b = (e.jacobian.mulVec h).dot (e.jacobian.mulVec d) + c * h.dot d := by
  obtain ⟨-, hsolves⟩ := (Mat.solve?_eq_some_iff _ _).1 hd
  rw [← Mat.get_mulVec_eq] at hsolves
  rw [← dot_shiftedNormal, Vec.ext_get (congrFun hsolves)]

/-- Only a right-hand side that is zero has the solution zero. -/
theorem normSq_solution_pos {j : Fin n} (hb : b.get j ≠ 0) : 0 < d.normSq := by
  refine d.normSq_nonneg.lt_of_ne' fun hzero => (b.normSq_pos hb).ne' ?_
  have hJd : (e.jacobian.mulVec d).normSq = 0 := by
    have hget : d.get = 0 := funext (d.normSq_eq_zero_iff.1 hzero)
    rw [Vec.normSq_eq, Mat.get_mulVec_eq, hget, Matrix.mulVec_zero, dotProduct_zero]
  refine (dot_of_solution hd b).trans ?_
  rw [Vec.dot_eq_zero _ _ hJd, Vec.dot_eq_zero _ _ hzero, mul_zero, add_zero]

/-- The right-hand side is at least as long as the solution times the shift. -/
theorem mul_norm_solution_le (hc : 0 < c) : c * d.norm ≤ b.norm := by
  -- with `d` itself as the direction, and then by the square of the distance of `b` and `c d`
  have halong : c * d.normSq ≤ b.dot d := by
    rw [Vec.dot_comm, dot_of_solution hd d]
    exact le_add_of_nonneg_left (Vec.normSq_nonneg _)
  have hdistance : 0 ≤ b.normSq - 2 * (c * b.dot d) + c ^ 2 * d.normSq := by
    rw [← Vec.dot_scale_right, ← Vec.normSq_scale, ← Vec.normSq_sub]
    exact Vec.normSq_nonneg _
  have hscaled : c * (c * d.normSq) ≤ c * b.dot d := mul_le_mul_of_nonneg_left halong hc.le
  have hsquares : (c * d.norm) ^ 2 ≤ b.norm ^ 2 := by
    rw [mul_pow, Vec.sq_norm, Vec.sq_norm]
    linarith
  exact (pow_le_pow_iff_left₀ (mul_nonneg hc.le d.norm_nonneg) b.norm_nonneg two_ne_zero).1 hsquares

end LinearModel

/-! ## Affine problems

Their residuals change by `A h`, so the error is a quadratic function of the step, without a
remainder. Both signs are needed: the one method adds its step, and the other subtracts it. -/

/-- The residuals `A x + b`, with the Jacobian `A`. -/
noncomputable def Problem.affine (A : Mat ℝ m n) (b : Vec ℝ m) : Problem ℝ n where
  evaluate x := ⟨m, (A.mulVec x).add b, A⟩

namespace Problem

variable (A : Mat ℝ m n) (b : Vec ℝ m) (x h : Vec ℝ n)

theorem affine_consistent : (affine A b).Consistent :=
  fun _ => rfl

theorem residuals_affine_add :
    (A.mulVec (x.add h)).add b = ((A.mulVec x).add b).add (A.mulVec h) := by
  rw [Mat.mulVec_add]
  exact Vec.ext_get fun i => by
    simp only [Vec.get_add]
    ring

theorem residuals_affine_sub :
    (A.mulVec (x.sub h)).add b = ((A.mulVec x).add b).sub (A.mulVec h) := by
  rw [Mat.mulVec_sub]
  exact Vec.ext_get fun i => by
    simp only [Vec.get_add, Vec.get_sub]
    ring

theorem error_affine_add : (affine A b).error (x.add h)
    = (affine A b).error x + 2 * h.dot ((affine A b).gradient x) + (A.mulVec h).normSq := by
  have hgradient := LinearModel.dot_gradient ((affine A b).evaluate x) h
  show ((A.mulVec (x.add h)).add b).normSq = _
  rw [residuals_affine_add, Vec.normSq_add, Vec.dot_comm, gradient, ← hgradient]
  rfl

theorem error_affine_sub : (affine A b).error (x.sub h)
    = (affine A b).error x - 2 * h.dot ((affine A b).gradient x) + (A.mulVec h).normSq := by
  have hgradient := LinearModel.dot_gradient ((affine A b).evaluate x) h
  show ((A.mulVec (x.sub h)).add b).normSq = _
  rw [residuals_affine_sub, Vec.normSq_sub, Vec.dot_comm, gradient, ← hgradient]
  rfl

end Problem

end LeastSquares
