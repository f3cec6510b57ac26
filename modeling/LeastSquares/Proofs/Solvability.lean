/-
LeastSquares.Proofs.Solvability — the equations of a step have a solution, computed exactly.

Both methods solve equations `(Jᵀ J + c I) d = b` with `c > 0`, and the matrix is positive definite,
whatever the shape and the rank of the Jacobian are. So elimination never breaks down, and no run
fails for want of a step (`steps_solvable`), also where `Jᵀ J` is singular (`steps_solvable_flat`).
-/
import Mathlib
import LeastSquares.Proofs.DogLeg.Exact
import LeastSquares.Proofs.LevenbergMarquardt.Exact

namespace LeastSquares

variable {n : Nat}

/-- Within the ranges of the settings the damped method returns a point. In each state of a run the
damping is positive, and there is a step, which solves the damped equations. A run of the trust
region method does not fail, and in each of its states there is a Gauss-Newton step, which solves
the regularized equations. Jacobians of any shape and rank are allowed. -/
theorem steps_solvable (p : Problem ℝ n) (x₀ : Vec ℝ n) {o : LevenbergMarquardt.Options ℝ}
    (ho : o.InRange) (o' : DogLeg.Options ℝ) :
    (∃ x, (LevenbergMarquardt.minimize o p x₀).point = some x)
      ∧ (∀ ts s, LevenbergMarquardt.History o p x₀ ts s → 0 < s.lambda
        ∧ ∃ d, s.trialPoint? = some (s.point.sub d)
          ∧ LevenbergMarquardt.IsStep (p.evaluate s.point) s.lambda d)
      ∧ (DogLeg.minimize o' p x₀).report.failure ≠ some .numerical
      ∧ ∀ s, DogLeg.Reaches o' p x₀ s → ∃ h, DogLeg.gaussNewton? s.model = some h
        ∧ let e := p.evaluate s.point
          let J := e.jacobian.toMatrix
          ∀ y, (J.transpose * J + (1e-8 : ℝ) • 1).mulVec y = -J.transpose.mulVec e.residuals.get
            ↔ y = h.get := by
  refine ⟨LevenbergMarquardt.exists_point ho p x₀,
    fun ts s h => ⟨h.lambda_pos ho, h.exists_step ho⟩, (DogLeg.exists_trials o' p x₀).2,
    fun s reached => ?_⟩
  obtain ⟨h, hh, hsolution⟩ := LinearModel.exists_unique_solution (p.evaluate s.point)
    DogLeg.regularization_pos ((LinearModel.ofEvaluation (p.evaluate s.point)).gradient.scale (-1))
  rw [← reached.model_eq_ofEvaluation] at hh
  refine ⟨h, hh, ?_⟩
  rw [Vec.get_scale_eq, LinearModel.get_gradient, neg_one_smul] at hsolution
  exact hsolution

/-- The residual `x + y - 2` has a Jacobian of rank one, so `Jᵀ J` is singular. From the origin the
first step with the standard damping leads a sixth forward along each axis. -/
theorem steps_solvable_flat :
    let A : Mat ℝ 1 2 := #v[#v[1, 1]]
    let p : Problem ℝ 2 := .affine A #v[-2]
    (LevenbergMarquardt.Options.standard : LevenbergMarquardt.Options ℝ).InRange
      ∧ (A.toMatrix.transpose * A.toMatrix).det = 0
      ∧ (∃ x, (LevenbergMarquardt.minimize .standard p #v[0, 0]).point = some x)
      ∧ (LevenbergMarquardt.State.start .standard #v[0, 0] (p.evaluate #v[0, 0])).trialPoint?
        = some #v[1 / 6, 1 / 6]
      ∧ (DogLeg.minimize .standard p #v[0, 0]).report.failure ≠ some .numerical := by
  intro A p
  have ho : (LevenbergMarquardt.Options.standard : LevenbergMarquardt.Options ℝ).InRange :=
    LevenbergMarquardt.Options.inRange_standard
  have hA : A.toMatrix = !![1, 1] := by
    ext i j
    fin_cases i
    fin_cases j <;> rfl
  have hresiduals : ((A.mulVec #v[0, 0]).add #v[-2]).get = ![-2] := by
    rw [Vec.get_add_eq, Mat.get_mulVec_eq, hA]
    ext i
    fin_cases i
    simp [dotProduct, Vector.get]
  obtain ⟨hpoint, hstates, hfailure, -⟩ :=
    steps_solvable p #v[0, 0] ho (DogLeg.Options.standard : DogLeg.Options ℝ)
  obtain ⟨-, d, htrial, step⟩ := hstates [] _ (.start one_ne_zero)
  have hd : d.get = ![-1 / 6, -1 / 6] := by
    refine ((step.solution _).1 ?_).symm
    show (A.toMatrix.transpose * A.toMatrix + (10.0 : ℝ) • 1).mulVec _
      = A.toMatrix.transpose.mulVec ((A.mulVec #v[0, 0]).add #v[-2]).get
    rw [hA, hresiduals]
    ext i
    fin_cases i <;> norm_num [Matrix.mulVec, dotProduct, Matrix.mul_apply, Fin.sum_univ_two]
  refine ⟨ho, ?_, hpoint, htrial.trans (congrArg some (Vec.ext_get fun i => ?_)), hfailure⟩
  · rw [hA]
    norm_num [Matrix.det_fin_two, Matrix.mul_apply]
  · rw [Vec.get_sub, hd]
    fin_cases i <;> norm_num [LevenbergMarquardt.State.start, Vector.get]

end LeastSquares
