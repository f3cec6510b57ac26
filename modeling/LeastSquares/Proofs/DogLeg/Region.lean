/-
LeastSquares.Proofs.DogLeg.Region — steps and the trust region, computed exactly.

`pathStep?` goes along the path as `pathStep` does, but refuses to divide by zero. It never has to,
as long as the radius is positive and the path leads somewhere (`pathStep?_eq_some`), and both are
so in every state in which a run makes a step. Such a step is as long as the Gauss-Newton step, or
as the radius if this is smaller (`step_within_region`).
-/
import Mathlib
import LeastSquares.Proofs.DogLeg.Exact

namespace LeastSquares.DogLeg

/-! ## Divisions -/

section Checked

variable {K : Type} [Scalar K] {n : Nat}

/-- The quotient, unless the denominator is zero. -/
def divide? (num den : K) : Option K :=
  if den == 0 then none else some (num / den)

/-- `boundaryFraction`, unless it would divide by zero. -/
def boundaryFraction? (a leg : Vec K n) (radius : K) : Option K :=
  let c := a.dot leg
  let square := leg.normSq
  let rest := radius * radius - a.normSq
  let root := Scalar.sqrt (c * c + square * rest)
  if c ≤ 0 then divide? (root - c) square else divide? rest (c + root)

/-- `pathStep`, unless it would divide by zero. -/
def pathStep? (newton descent : Vec K n) (factor radius : K) : Option (Vec K n) :=
  if newton.norm ≤ radius then some newton
  else
    let a := descent.scale factor
    if radius ≤ a.norm then (divide? radius descent.norm).map descent.scale
    else
      let leg := newton.sub a
      (boundaryFraction? a leg radius).map fun β => a.add (leg.scale β)

end Checked

variable {n : Nat}

theorem divide?_eq_some {den : ℝ} (h : den ≠ 0) (num : ℝ) : divide? num den = some (num / den) := by
  rw [divide?, Exact.beq_eq_false_iff.2 h]
  rfl

/-- The way outwards has a length, and where the other formula is taken, both terms of its
denominator are not negative. -/
theorem boundaryFraction?_eq_some {a leg : Vec ℝ n} {radius : ℝ} (inside : a.norm < radius)
    (outside : radius < (a.add leg).norm) :
    boundaryFraction? a leg radius = some (boundaryFraction a leg radius) := by
  unfold boundaryFraction? boundaryFraction
  dsimp only
  split_ifs with hc
  · exact divide?_eq_some (normSq_leg_pos inside outside).ne' _
  · exact divide?_eq_some (add_pos_of_pos_of_nonneg (not_le.1 hc) (Real.sqrt_nonneg _)).ne' _

variable {newton descent : Vec ℝ n} {factor radius : ℝ}

theorem pathStep?_eq_some (hdescent : descent.norm ≠ 0) :
    pathStep? newton descent factor radius = some (pathStep newton descent factor radius) := by
  unfold pathStep? pathStep
  dsimp only
  split_ifs with hnewton hcauchy
  · rfl
  · rw [divide?_eq_some hdescent, Option.map_some]
  · have houtside : radius
        < ((descent.scale factor).add (newton.sub (descent.scale factor))).norm := by
      rw [add_leg]
      exact not_le.1 hnewton
    rw [boundaryFraction?_eq_some (not_le.1 hcauchy) houtside, Option.map_some]

/-! ## A step of a run -/

/-- The step `h` from the state `s`, which is made of the Gauss-Newton step `newton`. -/
structure State.StepsWithin (s : State ℝ n) (newton h : Vec ℝ n) : Prop where
  radius_pos : 0 < s.radius
  gaussNewton : gaussNewton? s.model = some newton
  step : step? s.model s.radius = some h
  norm : h.norm = min s.radius newton.norm
  inside : newton.norm ≤ s.radius → h = newton
  /-- It ends on the way along the steepest descent, or on the way from there to the end. -/
  cut : s.radius < newton.norm →
    Cut newton (s.model.gradient.scale (-1)) (descentFactor s.model) h
  /-- No division on the way is one by zero. -/
  divisions : pathStep? newton (s.model.gradient.scale (-1)) (descentFactor s.model) s.radius
    = some h

/-- Whatever the problem is, at each step of a run the radius is positive, and the step stays within
the trust region. It is the Gauss-Newton step, if the region reaches as far, and otherwise it ends
on the boundary of the region. -/
theorem step_within_region {o : Options ℝ} (ho : o.InRange) {p : Problem ℝ n} {x₀ : Vec ℝ n}
    {s : State ℝ n} (hs : Running o p x₀ s) : ∃ newton h, s.StepsWithin newton h := by
  obtain ⟨j, moving⟩ := hs.exists_gradient_ne_zero ho
  have hradius := hs.reached.radius_pos ho
  obtain ⟨newton, h, hnewton, hstep, -, shape⟩ := exists_step _ moving hradius
  have hdescent := norm_descent_pos _ moving
  rw [← hs.reached.model_eq_ofEvaluation] at hnewton hstep hdescent shape
  have hpath : pathStep newton (s.model.gradient.scale (-1)) (descentFactor s.model) s.radius
      = h := by
    rw [step?, hnewton, Option.map_some] at hstep
    exact Option.some.inj hstep
  refine ⟨newton, h, hradius, hnewton, hstep, ?_, ?_, ?_, ?_⟩
  · rcases shape with ⟨hinside, rfl⟩ | ⟨houtside, hnorm, -⟩
    · exact (min_eq_right hinside).symm
    · exact hnorm.trans (min_eq_left houtside.le).symm
  · intro hinside
    exact (shape.resolve_right fun houtside => houtside.1.not_ge hinside).2
  · intro houtside
    exact (shape.resolve_left fun hinside => hinside.1.not_gt houtside).2.2
  · rw [pathStep?_eq_some hdescent.ne', hpath]

/-- On the line the largest magnitude is the only one. -/
theorem normInf_eq_abs (v : Vec ℝ 1) : v.normInf = |v.get 0| := by
  refine le_antisymm ?_ (((Vec.normInf_le_iff_abs v).1 le_rfl).2 0)
  refine (Vec.normInf_le_iff_abs v).2 ⟨abs_nonneg _, fun i => ?_⟩
  rw [Subsingleton.elim i 0]

/-- On the residual `x + 1` the standard radius at zero is a half. The Gauss-Newton step is nearly
minus one, and is cut to this radius. -/
theorem step_within_region_default :
    let o : Options ℝ := .standard
    let p : Problem ℝ 1 := { evaluate x := ⟨1, x.add #v[1], .identity 1⟩ }
    let s : State ℝ 1 := .initial p #v[0] 0.5
    o.InRange ∧ Running o p #v[0] s ∧ ∃ newton h, s.StepsWithin newton h ∧ 0.5 < newton.norm
      ∧ h.norm = 0.5 := by
  intro o p s
  let e : Evaluation ℝ 1 := p.evaluate #v[0]
  have hresidual : e.residuals.get 0 = 1 := by
    show (Vec.add #v[0] #v[1]).get 0 = 1
    rw [Vec.get_add]
    exact zero_add 1
  have hgradient : (LinearModel.ofEvaluation e).gradient.get 0 = 1 := by
    rw [LinearModel.get_gradient]
    show (Mat.identity 1 : Mat ℝ 1 1).toMatrix.transpose.mulVec e.residuals.get 0 = 1
    rw [Mat.toMatrix_identity, Matrix.transpose_one, Matrix.one_mulVec, hresidual]
  -- neither the residual nor the gradient is small
  have large {v : Vec ℝ 1} (hv : v.get 0 = 1) : decide (v.normInf ≤ o.epsilon) = false := by
    rw [normInf_eq_abs, hv]
    exact decide_eq_false (by norm_num [o, Options.standard])
  have opened : opening o #v[0] (.ofEvaluation e) = .go 0.5 := by
    refine (opening_eq_go one_ne_zero (LinearModel.isFinite_eq_true _) ?_).trans ?_
    · exact Bool.or_eq_false_iff.2 ⟨large hresidual, large hgradient⟩
    · show Opening.go (0.5 * (LinearModel.ofEvaluation e).gradient.normInf) = _
      rw [normInf_eq_abs, hgradient, abs_one, mul_one]
  have running : Running o p #v[0] s :=
    ⟨.initial opened, rfl, Options.inRange_standard.maxSteps⟩
  obtain ⟨newton, h, within⟩ := step_within_region Options.inRange_standard running
  have hlong : 0.5 < newton.norm := by
    obtain ⟨-, hsolves⟩ := (Mat.solve?_eq_some_iff _ _).1 within.gaussNewton
    have hnormal : ((LinearModel.ofEvaluation e).shiftedNormal regularization).toMatrix
        = (1 + (regularization : ℝ) • 1 : Matrix (Fin 1) (Fin 1) ℝ) := by
      rw [LinearModel.toMatrix_shiftedNormal]
      show (Mat.identity 1 : Mat ℝ 1 1).toMatrix.transpose * (Mat.identity 1 : Mat ℝ 1 1).toMatrix
        + _ = _
      rw [Mat.toMatrix_identity, Matrix.transpose_one, one_mul]
    have hline : newton.get 0 + regularization * newton.get 0 = -1 := by
      have hrow : ((LinearModel.ofEvaluation e).shiftedNormal regularization).toMatrix.mulVec
          newton.get 0 = ((LinearModel.ofEvaluation e).gradient.scale (-1)).get 0 :=
        congrFun hsolves 0
      rw [hnormal, Matrix.add_mulVec, Matrix.smul_mulVec, Matrix.one_mulVec, Vec.get_scale,
        hgradient] at hrow
      exact hrow.trans (mul_neg_one 1)
    norm_num [regularization] at hline
    rw [Vec.norm_eq_abs]
    exact lt_abs.2 (.inr (by linarith))
  refine ⟨Options.inRange_standard, running, newton, h, within, hlong, ?_⟩
  rw [within.norm]
  exact min_eq_left hlong.le

end LeastSquares.DogLeg
