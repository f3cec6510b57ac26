/-
LeastSquares.Proofs.DogLeg.Path — the steps of the trust region method, computed exactly.

A step lies on the path from the current point to the minimum along the steepest descent and from
there to the Gauss-Newton point, and it reaches as far as the radius allows (`pathStep_cases`). The
gain that the linear model promises is positive at the ends of both legs, it is a parabola along
the first one that has not yet come to its vertex, and it is concave along the second one. So it is
positive on the whole path, unless the gradient is zero (`exists_step`).
-/
import Mathlib
import LeastSquares.DogLeg.Step
import LeastSquares.Proofs.Exact.Normal

namespace LeastSquares.DogLeg

variable {n : Nat}

/-! ## The sphere -/

/-- The two ways to solve the quadratic equation both give its positive solution. -/
theorem quadratic_solution {c s q : ℝ} (hs : 0 < s) (hq : 0 < q) {β : ℝ}
    (hβ : β = if c ≤ 0 then (√(c * c + s * q) - c) / s else q / (c + √(c * c + s * q))) :
    0 < β ∧ s * β ^ 2 + 2 * c * β = q := by
  have hsq : 0 < s * q := mul_pos hs hq
  have hroot : √(c * c + s * q) ^ 2 = c * c + s * q :=
    Real.sq_sqrt (add_nonneg (mul_self_nonneg c) hsq.le)
  have hpos : 0 < √(c * c + s * q) := Real.sqrt_pos.2 (by nlinarith [mul_self_nonneg c])
  generalize √(c * c + s * q) = root at hroot hpos hβ
  split_ifs at hβ with hc
  · have hβs : β * s = root - c := by
      rw [hβ, div_mul_cancel₀ _ hs.ne']
    refine ⟨hβ ▸ div_pos (by linarith) hs, mul_left_cancel₀ hs.ne' ?_⟩
    calc s * (s * β ^ 2 + 2 * c * β) = (β * s) * (β * s + 2 * c) := by ring
      _ = s * q := by rw [hβs]; linear_combination hroot
  · have hden : 0 < c + root := by linarith
    have hβd : β * (c + root) = q := by
      rw [hβ, div_mul_cancel₀ _ hden.ne']
    refine ⟨hβ ▸ div_pos hq hden, mul_left_cancel₀ (pow_pos hden 2).ne' ?_⟩
    calc (c + root) ^ 2 * (s * β ^ 2 + 2 * c * β)
        = s * (β * (c + root)) ^ 2 + 2 * c * (c + root) * (β * (c + root)) := by ring
      _ = (c + root) ^ 2 * q := by rw [hβd]; linear_combination -q * hroot

/-- A way from within the sphere to outside of it has a length. -/
theorem normSq_leg_pos {a leg : Vec ℝ n} {radius : ℝ} (inside : a.norm < radius)
    (outside : radius < (a.add leg).norm) : 0 < leg.normSq := by
  refine leg.normSq_nonneg.lt_of_ne' fun hzero => (inside.trans outside).ne' ?_
  rw [Vec.norm, Vec.normSq_add, Vec.dot_eq_zero a leg hzero, hzero, mul_zero, add_zero, add_zero]
  rfl

/-- From within the sphere a way outwards crosses it once. -/
theorem boundaryFraction_spec {a leg : Vec ℝ n} {radius : ℝ} (inside : a.norm < radius)
    (outside : radius < (a.add leg).norm) :
    0 < boundaryFraction a leg radius ∧ boundaryFraction a leg radius < 1
      ∧ (a.add (leg.scale (boundaryFraction a leg radius))).norm = radius := by
  have hradius : 0 < radius := a.norm_nonneg.trans_lt inside
  have hinside : a.normSq < radius * radius := by
    rw [← a.sq_norm, ← sq]
    exact pow_lt_pow_left₀ inside a.norm_nonneg two_ne_zero
  have houtside : radius * radius < a.normSq + 2 * a.dot leg + leg.normSq := by
    rw [← Vec.normSq_add, ← Vec.sq_norm, ← sq]
    exact pow_lt_pow_left₀ outside hradius.le two_ne_zero
  have hleg : 0 < leg.normSq := normSq_leg_pos inside outside
  obtain ⟨hpos, hroot⟩ := quadratic_solution (β := boundaryFraction a leg radius) hleg
    (sub_pos.2 hinside) rfl
  generalize boundaryFraction a leg radius = β at hpos hroot ⊢
  refine ⟨hpos, ?_, ?_⟩
  · by_contra! hβ
    have hproduct : β * (leg.normSq * β + 2 * a.dot leg) = radius * radius - a.normSq := by
      linear_combination hroot
    have hfactor : 0 < leg.normSq * β + 2 * a.dot leg := by
      rw [← mul_pos_iff_of_pos_left hpos, hproduct]
      exact sub_pos.2 hinside
    have hgrows := le_mul_of_one_le_left hfactor.le hβ
    have hfar := le_mul_of_one_le_right hleg.le hβ
    linarith
  · have hnormSq : (a.add (leg.scale β)).normSq = radius ^ 2 := by
      rw [Vec.normSq_add, Vec.dot_scale_right, Vec.normSq_scale]
      linarith
    rw [Vec.norm, hnormSq]
    exact Real.sqrt_sq hradius.le

/-! ## The path -/

/-- What is left of a step that the radius cuts. -/
inductive Cut (newton descent : Vec ℝ n) (factor : ℝ) : Vec ℝ n → Prop where
  /-- The step ends on the way along the steepest descent. -/
  | descent {t : ℝ} (pos : 0 < t) (le : t ≤ factor) : Cut newton descent factor (descent.scale t)
  /-- The step ends on the way from there to the Gauss-Newton point. -/
  | leg {β : ℝ} (pos : 0 < β) (lt : β < 1) : Cut newton descent factor
      ((descent.scale factor).add ((newton.sub (descent.scale factor)).scale β))

/-- The second leg ends at the Gauss-Newton point. -/
theorem add_leg (a newton : Vec ℝ n) : a.add (newton.sub a) = newton :=
  Vec.ext_get fun i => by simp

variable {newton descent : Vec ℝ n} {factor radius : ℝ}

/-- A step goes to the Gauss-Newton point, or it is cut and ends on the sphere. -/
theorem pathStep_cases (hdescent : 0 < descent.norm) (hfactor : 0 < factor) (hradius : 0 < radius) :
    newton.norm ≤ radius ∧ pathStep newton descent factor radius = newton
      ∨ radius < newton.norm ∧ (pathStep newton descent factor radius).norm = radius
        ∧ Cut newton descent factor (pathStep newton descent factor radius) := by
  have hscale {t : ℝ} (ht : 0 ≤ t) : (descent.scale t).norm = t * descent.norm := by
    rw [Vec.norm, Vec.normSq_scale, ← Vec.sq_norm, ← mul_pow]
    exact Real.sqrt_sq (mul_nonneg ht hdescent.le)
  rcases le_or_gt newton.norm radius with hnewton | hnewton
  · exact .inl ⟨hnewton, if_pos hnewton⟩
  · refine .inr ⟨hnewton, ?_⟩
    rw [pathStep, if_neg hnewton.not_ge]
    dsimp only
    split_ifs with hcauchy
    · have ht : 0 < radius / descent.norm := div_pos hradius hdescent
      rw [hscale hfactor.le, ← div_le_iff₀ hdescent] at hcauchy
      exact ⟨by rw [hscale ht.le, div_mul_cancel₀ _ hdescent.ne'], .descent ht hcauchy⟩
    · have houtside : radius
          < ((descent.scale factor).add (newton.sub (descent.scale factor))).norm := by
        rwa [add_leg]
      obtain ⟨hpos, hlt, hnorm⟩ := boundaryFraction_spec (not_le.1 hcauchy) houtside
      exact ⟨hnorm, .leg hpos hlt⟩

/-! ## The gain that is promised -/

section Gain

variable (e : Evaluation ℝ n)

theorem regularization_pos : (0 : ℝ) < regularization := by
  norm_num [regularization]

/-- There is always a Gauss-Newton step. -/
theorem exists_gaussNewton : ∃ newton, gaussNewton? (.ofEvaluation e) = some newton :=
  LinearModel.exists_solution e regularization_pos _

variable {j : Fin n} (moving : (LinearModel.ofEvaluation e).gradient.get j ≠ 0)
include moving

/-- The steepest descent leads somewhere. -/
theorem norm_descent_pos : 0 < ((LinearModel.ofEvaluation e).gradient.scale (-1)).norm := by
  have hgradient : ((LinearModel.ofEvaluation e).gradient.scale (-1)).get j ≠ 0 := by
    simpa using moving
  exact Real.sqrt_pos.2 (Vec.normSq_pos _ hgradient)

/-- The residuals change along the gradient. -/
theorem curvature_pos :
    0 < (e.jacobian.mulVec (LinearModel.ofEvaluation e).gradient).normSq := by
  have hgradient := LinearModel.dot_gradient e (LinearModel.ofEvaluation e).gradient
  refine (Vec.normSq_nonneg _).lt_of_ne' fun hzero => (Vec.normSq_pos _ moving).ne' ?_
  refine hgradient.symm.trans ?_
  rw [Vec.dot_comm, Vec.dot_eq_zero _ _ hzero]

theorem descentFactor_eq : descentFactor (.ofEvaluation e)
    = (LinearModel.ofEvaluation e).gradient.normSq
      / (e.jacobian.mulVec (LinearModel.ofEvaluation e).gradient).normSq :=
  if_pos (curvature_pos e moving)

theorem descentFactor_pos : 0 < descentFactor (.ofEvaluation e) := by
  rw [descentFactor_eq e moving]
  exact div_pos (Vec.normSq_pos _ moving) (curvature_pos e moving)

/-- The Gauss-Newton step has a gain. -/
theorem predictedGain_newton_pos {newton : Vec ℝ n}
    (hnewton : gaussNewton? (.ofEvaluation e) = some newton) :
    0 < predictedGain (.ofEvaluation e) newton := by
  have hnormal := LinearModel.dot_of_solution hnewton newton
  rw [Vec.dot_scale_right, neg_one_mul, Vec.dot_self, Vec.dot_self] at hnormal
  have hgain : predictedGain (.ofEvaluation e) newton
      = 0.5 * (e.jacobian.mulVec newton).normSq + regularization * newton.normSq :=
    calc predictedGain (.ofEvaluation e) newton
        = -newton.dot (LinearModel.ofEvaluation e).gradient
          - 0.5 * (e.jacobian.mulVec newton).normSq := rfl
      _ = 0.5 * (e.jacobian.mulVec newton).normSq + regularization * newton.normSq := by
          rw [hnormal]
          ring
  have hne : 0 < newton.normSq :=
    LinearModel.normSq_solution_pos hnewton (j := j) (by simpa using moving)
  have hJ := (e.jacobian.mulVec newton).normSq_nonneg
  have hμ := regularization_pos
  rw [hgain]
  positivity

/-- A step along the steepest descent has a gain, as long as it does not pass the minimum there. -/
theorem predictedGain_descent_pos {t : ℝ} (hpos : 0 < t)
    (hle : t ≤ descentFactor (.ofEvaluation e)) :
    0 < predictedGain (.ofEvaluation e)
      (((LinearModel.ofEvaluation e).gradient.scale (-1)).scale t) := by
  have hK := curvature_pos e moving
  rw [descentFactor_eq e moving, le_div_iff₀ hK] at hle
  have hG := Vec.normSq_pos _ moving
  have hgain : predictedGain (.ofEvaluation e)
        (((LinearModel.ofEvaluation e).gradient.scale (-1)).scale t)
      = t * ((LinearModel.ofEvaluation e).gradient.normSq
        - 0.5 * (t * (e.jacobian.mulVec (LinearModel.ofEvaluation e).gradient).normSq)) := by
    rw [predictedGain, Vec.dot_scale_left, Vec.dot_scale_left, Vec.dot_self, Mat.mulVec_scale,
      Mat.mulVec_scale, Vec.normSq_scale, Vec.normSq_scale]
    show _ = t * (_ - 0.5 * (t * ((LinearModel.ofEvaluation e).jacobian.mulVec _).normSq))
    ring
  rw [hgain]
  exact mul_pos hpos (by linarith)

end Gain

/-- Between two steps that have a gain each step has one. -/
theorem predictedGain_segment_pos (m : LinearModel ℝ n) {a b : Vec ℝ n} {β : ℝ}
    (ha : 0 < predictedGain m a) (hb : 0 < predictedGain m b) (hpos : 0 < β) (hlt : β < 1) :
    0 < predictedGain m (a.add ((b.sub a).scale β)) := by
  have hconcave : predictedGain m (a.add ((b.sub a).scale β))
      = (1 - β) * predictedGain m a + β * predictedGain m b
        + 0.5 * (β * (1 - β)) * (m.jacobian.mulVec (b.sub a)).normSq := by
    have hcross := Vec.dot_comm (m.jacobian.mulVec b) (m.jacobian.mulVec a)
    simp only [predictedGain, Mat.mulVec_add, Mat.mulVec_scale, Mat.mulVec_sub, Vec.dot_add_left,
      Vec.dot_scale_left, Vec.dot_sub_left, Vec.normSq_add, Vec.normSq_scale, Vec.normSq_sub,
      Vec.dot_scale_right, Vec.dot_sub_right, Vec.dot_self, hcross]
    ring
  have hβ : 0 < 1 - β := sub_pos.2 hlt
  have hJ := (m.jacobian.mulVec (b.sub a)).normSq_nonneg
  rw [hconcave]
  positivity

/-! ## Steps -/

/-- Unless the gradient is zero there is a step, to the Gauss-Newton point or as far as the radius
allows, and it has a gain. -/
theorem exists_step (e : Evaluation ℝ n) {j : Fin n} {radius : ℝ}
    (moving : (LinearModel.ofEvaluation e).gradient.get j ≠ 0) (hradius : 0 < radius) :
    ∃ newton h, gaussNewton? (.ofEvaluation e) = some newton
      ∧ step? (.ofEvaluation e) radius = some h ∧ 0 < predictedGain (.ofEvaluation e) h
      ∧ (newton.norm ≤ radius ∧ h = newton
        ∨ radius < newton.norm ∧ h.norm = radius
          ∧ Cut newton ((LinearModel.ofEvaluation e).gradient.scale (-1))
            (descentFactor (.ofEvaluation e)) h) := by
  obtain ⟨newton, hnewton⟩ := exists_gaussNewton e
  have hstep : step? (.ofEvaluation e) radius = some (pathStep newton
      ((LinearModel.ofEvaluation e).gradient.scale (-1)) (descentFactor (.ofEvaluation e))
      radius) := by
    rw [step?, hnewton, Option.map_some]
  have hdescent := norm_descent_pos e moving
  have hfactor := descentFactor_pos e moving
  have hfull := predictedGain_newton_pos e moving hnewton
  refine ⟨newton, _, hnewton, hstep, ?_⟩
  rcases pathStep_cases hdescent hfactor hradius with ⟨hinside, hpath⟩ | ⟨houtside, hnorm, cut⟩
  · rw [hpath]
    exact ⟨hfull, .inl ⟨hinside, rfl⟩⟩
  · refine ⟨?_, .inr ⟨houtside, hnorm, cut⟩⟩
    generalize pathStep newton _ _ radius = h at cut
    cases cut with
    | descent pos le => exact predictedGain_descent_pos e moving pos le
    | leg pos lt =>
      exact predictedGain_segment_pos _ (predictedGain_descent_pos e moving hfactor le_rfl) hfull
        pos lt

end LeastSquares.DogLeg
