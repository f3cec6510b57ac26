/-
LeastSquares.Proofs.LevenbergMarquardt.Exact — runs of the damped method, computed exactly.

Whatever the problem is, the damping is positive in every state of a run (`History.lambda_pos`). So
the equations of each step have exactly one solution, and it is a step to try
(`History.exists_step`). No run comes back without a point (`exists_point`).
-/
import Mathlib
import LeastSquares.Proofs.Exact.Normal
import LeastSquares.Proofs.Exact.Settings
import LeastSquares.Proofs.LevenbergMarquardt.Trajectory

namespace LeastSquares.LevenbergMarquardt

variable {n : Nat}

/-! ## One step -/

/-- The step `d` of the damped method where the problem gives `e`. -/
structure IsStep (e : Evaluation ℝ n) (lambda : ℝ) (d : Vec ℝ n) : Prop where
  /-- It is the only solution of `(Jᵀ J + λ I) d = Jᵀ r`. -/
  solution : ∀ y, (e.jacobian.toMatrix.transpose * e.jacobian.toMatrix + lambda • 1).mulVec y
    = e.jacobian.toMatrix.transpose.mulVec e.residuals.get ↔ y = d.get
  norm_le : d.norm ≤ (e.jacobian.transpose.mulVec e.residuals).norm / lambda
  /-- What the linear model promises after the step. -/
  error : (e.residuals.sub (e.jacobian.mulVec d)).normSq
    = e.residuals.normSq - (e.jacobian.mulVec d).normSq - 2 * lambda * d.normSq

/-- With a positive damping the step is there. -/
theorem exists_isStep (e : Evaluation ℝ n) {lambda : ℝ} (damped : 0 < lambda) :
    ∃ d, ((LinearModel.ofEvaluation e).shiftedNormal lambda).solve?
        (LinearModel.ofEvaluation e).gradient = some d ∧ IsStep e lambda d := by
  obtain ⟨d, hd, hsolution⟩ :=
    LinearModel.exists_unique_solution e damped (LinearModel.ofEvaluation e).gradient
  refine ⟨d, hd, LinearModel.get_gradient e ▸ hsolution, ?_, ?_⟩
  · rw [le_div_iff₀' damped]
    exact LinearModel.mul_norm_solution_le hd damped
  · have halong : (e.jacobian.mulVec d).dot e.residuals
        = (e.jacobian.mulVec d).normSq + lambda * d.normSq := by
      rw [LinearModel.dot_gradient]
      exact LinearModel.dot_of_solution hd d
    rw [Vec.normSq_sub, Vec.dot_comm, halong]
    ring

variable {o : Options ℝ} {p : Problem ℝ n} {x₀ : Vec ℝ n} {s : State ℝ n} {ts : List (Trial ℝ n)}

/-- A solution has no entry that is no number. -/
theorem State.trialPoint?_of_solution {d : Vec ℝ n}
    (hd : (s.model.shiftedNormal s.lambda).solve? s.model.gradient = some d) :
    s.trialPoint? = some (s.point.sub d) := by
  rw [trialPoint?, hd]
  exact if_neg (Bool.eq_false_iff.1 (Exact.any_isNaN _))

/-! ## A run -/

/-- The damping is multiplied with and divided by positive numbers only. -/
theorem History.lambda_pos (h : History o p x₀ ts s) (ho : o.InRange) : 0 < s.lambda := by
  induction h with
  | start _ => exact ho.initialLambda
  | next _ _ _ _ ih =>
    rw [State.lambda_advance]
    split_ifs
    · exact div_pos ih ho.lambdaDown
    · exact mul_pos ih ho.lambdaUp

/-- In each state of a run there is a next trial, which the step leads to. -/
theorem History.exists_step (h : History o p x₀ ts s) (ho : o.InRange) :
    ∃ d, s.trialPoint? = some (s.point.sub d) ∧ IsStep (p.evaluate s.point) s.lambda d := by
  obtain ⟨d, hd, step⟩ := exists_isStep (p.evaluate s.point) (h.lambda_pos ho)
  refine ⟨d, State.trialPoint?_of_solution ?_, step⟩
  rw [h.tracks.model]
  exact hd

/-- A run returns a point. -/
theorem exists_point (ho : o.InRange) (p : Problem ℝ n) (x₀ : Vec ℝ n) :
    ∃ x, (minimize o p x₀).point = some x := by
  by_cases count : (p.evaluate x₀).count = 0
  · rw [minimize, if_pos count]
    exact ⟨x₀, rfl⟩
  · obtain ⟨ts, s, h, hend⟩ := exists_history count o
    generalize minimize o p x₀ = r at hend
    cases hend with
    | converged _ => exact ⟨s.trial, rfl⟩
    | outOfSteps _ => exact ⟨s.trial, rfl⟩
    | unsolved _ _ unsolved =>
      obtain ⟨d, htrial, -⟩ := h.exists_step ho
      rw [unsolved] at htrial
      contradiction

end LeastSquares.LevenbergMarquardt
