/-
LeastSquares.Proofs.DogLeg.Gain — the gain ratio, computed exactly.

The gain that the linear model promises for a step is the decrease of its own objective
`1/2 |f + J h|²` (`predictedGain_eq`). On the path of the method it is positive, unless the gradient
is zero, and then the model also changes along the gradient. So neither of the two numbers that
would be divided by is ever zero in a run, and the sign of the gain ratio is the sign of the actual
gain: a trial is accepted if and only if it makes the objective smaller (`Running.decides`).
-/
import Mathlib
import LeastSquares.Proofs.DogLeg.Exact

namespace LeastSquares.DogLeg

variable {n : Nat}

/-! ## One step -/

/-- The promised gain is the decrease of the objective of the linear model. -/
theorem predictedGain_eq (e : Evaluation ℝ n) (h : Vec ℝ n) :
    predictedGain (.ofEvaluation e) h
      = 0.5 * e.residuals.normSq - 0.5 * (e.residuals.add (e.jacobian.mulVec h)).normSq := by
  have hgradient := LinearModel.dot_gradient e h
  have hgain : predictedGain (.ofEvaluation e) h
      = -h.dot (LinearModel.ofEvaluation e).gradient - 0.5 * (e.jacobian.mulVec h).normSq := rfl
  rw [hgain, ← hgradient, Vec.normSq_add, Vec.dot_comm]
  ring

/-- At `e` the step `h` has a gain ratio, and neither of its two divisions is by zero. -/
structure Gains (e : Evaluation ℝ n) (h : Vec ℝ n) : Prop where
  predicted : predictedGain (.ofEvaluation e) h
    = 0.5 * e.residuals.normSq - 0.5 * (e.residuals.add (e.jacobian.mulVec h)).normSq
  predicted_pos : 0 < predictedGain (.ofEvaluation e) h
  curvature_pos : 0 < (e.jacobian.mulVec (LinearModel.ofEvaluation e).gradient).normSq
  factor : descentFactor (.ofEvaluation e)
    = (LinearModel.ofEvaluation e).gradient.normSq
      / (e.jacobian.mulVec (LinearModel.ofEvaluation e).gradient).normSq
  ratio (residuals : List ℝ) : gainRatio (.ofEvaluation e) h residuals
    = (0.5 * e.residuals.normSq - 0.5 * Sized.normSq residuals)
      / predictedGain (.ofEvaluation e) h
  /-- The ratio says whether the residuals after the step are the smaller ones. -/
  accepted (residuals : List ℝ) : 0 < gainRatio (.ofEvaluation e) h residuals
    ↔ 0.5 * Sized.normSq residuals < 0.5 * e.residuals.normSq

theorem gains_of_predictedGain_pos {e : Evaluation ℝ n} {h : Vec ℝ n} {j : Fin n}
    (moving : (LinearModel.ofEvaluation e).gradient.get j ≠ 0)
    (hpos : 0 < predictedGain (.ofEvaluation e) h) : Gains e h := by
  have hratio (residuals : List ℝ) : gainRatio (.ofEvaluation e) h residuals
      = (0.5 * e.residuals.normSq - 0.5 * Sized.normSq residuals)
        / predictedGain (.ofEvaluation e) h := if_pos hpos
  refine ⟨predictedGain_eq e h, hpos, DogLeg.curvature_pos e moving, descentFactor_eq e moving,
    hratio, fun residuals => ?_⟩
  rw [hratio, div_pos_iff_of_pos_right hpos, sub_pos]

/-! ## A run -/

/-- The step `h` from the state `s` is accepted if it makes the objective smaller, and otherwise the
point stays where it is. -/
structure State.Decides (o : Options ℝ) (p : Problem ℝ n) (s : State ℝ n) (h : Vec ℝ n) : Prop where
  accepted : Trial.Accepted p ⟨s, h⟩
    ↔ 0.5 * p.plainError (s.point.add h) < 0.5 * p.error s.point
  point : ∃ t, s.turn o p = .go t ∧ t.point = if Trial.Accepted p ⟨s, h⟩ then s.point.add h
    else s.point

variable {o : Options ℝ} {p : Problem ℝ n} {x₀ h : Vec ℝ n} {s : State ℝ n}

/-- In every state in which a run makes a step there is one, and it has a gain. -/
theorem Running.exists_gains (ho : o.InRange) (hs : Running o p x₀ s) :
    ∃ h, step? s.model s.radius = some h ∧ Gains (p.evaluate s.point) h := by
  obtain ⟨j, moving⟩ := hs.exists_gradient_ne_zero ho
  obtain ⟨newton, h, -, hstep, hgain, -⟩ := exists_step _ moving (hs.reached.radius_pos ho)
  rw [hs.reached.model_eq_ofEvaluation]
  exact ⟨h, hstep, gains_of_predictedGain_pos moving hgain⟩

/-- Every trial of a run is decided by the objective. -/
theorem Running.decides (ho : o.InRange) (hs : Running o p x₀ s) (tried : s.Tries o h) :
    s.Decides o p h := by
  obtain ⟨h', hstep, gains⟩ := hs.exists_gains ho
  obtain rfl : h = h' := Option.some.inj (tried.1.symm.trans hstep)
  refine ⟨?_, ?_⟩
  · rw [Trial.Accepted, State.ratio, hs.reached.model_eq_ofEvaluation]
    exact gains.accepted _
  · rw [State.turn_of_tries p tried, if_pos (LinearModel.isFinite_eq_true _)]
    by_cases accepted : 0 < s.ratio p h
    · have haccepted : Trial.Accepted p ⟨s, h⟩ := accepted
      rw [if_pos accepted, if_pos haccepted]
      exact ⟨_, rfl, State.point_resize ..⟩
    · have hrejected : ¬ Trial.Accepted p ⟨s, h⟩ := accepted
      rw [if_neg accepted, if_neg hrejected]
      exact ⟨_, rfl, State.point_resize ..⟩

/-- Where the gradient is not zero, the step within any positive radius has a positive gain, which
is the decrease of the objective of the linear model, and the gain ratio is positive if and only if
the residuals become smaller. So it is in all states of a run: each trial is accepted if and only if
it makes the objective smaller. -/
theorem accepted_iff_objective_lt :
    (∀ (e : Evaluation ℝ n) (radius : ℝ),
      (∃ j, (LinearModel.ofEvaluation e).gradient.get j ≠ 0) → 0 < radius →
        ∃ h, step? (.ofEvaluation e) radius = some h ∧ Gains e h)
    ∧ ∀ (o : Options ℝ) (p : Problem ℝ n) (x₀ : Vec ℝ n), o.InRange →
      (∀ s, Running o p x₀ s → ∃ h, step? s.model s.radius = some h
        ∧ Gains (p.evaluate s.point) h ∧ (s.Tries o h → s.Decides o p h))
      ∧ ∃ ts : List (Trial ℝ n),
        (minimize o p x₀).requests.toList = .evaluation x₀ :: ts.flatMap (Trial.requests p)
        ∧ ∀ t ∈ ts, Running o p x₀ t.state ∧ Gains (p.evaluate t.state.point) t.step
          ∧ t.state.Decides o p t.step := by
  refine ⟨?_, fun o p x₀ ho => ⟨fun s hs => ?_, ?_⟩⟩
  · rintro e radius ⟨j, moving⟩ hradius
    obtain ⟨newton, h, -, hstep, hgain, -⟩ := exists_step e moving hradius
    exact ⟨h, hstep, gains_of_predictedGain_pos moving hgain⟩
  · obtain ⟨h, hstep, gains⟩ := hs.exists_gains ho
    exact ⟨h, hstep, gains, hs.decides ho⟩
  · obtain ⟨⟨ts, hrequests, tries, -⟩, -⟩ := exists_trials o p x₀
    refine ⟨ts, hrequests, fun t ht => ?_⟩
    obtain ⟨hs, tried⟩ := tries t ht
    obtain ⟨h, hstep, gains⟩ := hs.exists_gains ho
    obtain rfl : t.step = h := Option.some.inj (tried.1.symm.trans hstep)
    exact ⟨hs, gains, hs.decides ho tried⟩

/-- A residual that is always two, given out for one with the slope one: the model promises a gain
for the step from zero, and accepts it if the residual becomes one. But it stays two, so the run
rejects the step. -/
theorem accepted_iff_objective_lt_constant :
    let e : Evaluation ℝ 1 := ⟨1, #v[2], .identity 1⟩
    let p : Problem ℝ 1 := { evaluate _ := e }
    let o : Options ℝ := ⟨some 1, 0, 1⟩
    let s : State ℝ 1 := .initial p #v[0] 1
    o.InRange ∧ Running o p #v[0] s
      ∧ ∃ h, s.Tries o h ∧ 0 < predictedGain (.ofEvaluation e) h
        ∧ 0 < gainRatio (.ofEvaluation e) h [1] ∧ ¬ Trial.Accepted p ⟨s, h⟩ := by
  intro e p o s
  have ho : o.InRange := ⟨by simp [o], le_rfl, one_pos⟩
  have hgradient : (LinearModel.ofEvaluation e).gradient.get 0 = 2 := by
    rw [LinearModel.get_gradient, Mat.toMatrix_identity, Matrix.transpose_one, Matrix.one_mulVec]
    rfl
  -- neither the residual nor the gradient is zero
  have large {v : Vec ℝ 1} (hv : v.get 0 = 2) : decide (v.normInf ≤ o.epsilon) = false := by
    refine decide_eq_false fun hle => ?_
    have hle' := ((Vec.normInf_le_iff_abs v).1 hle).2 0
    rw [hv] at hle'
    norm_num [o] at hle'
  have opened : opening o #v[0] (.ofEvaluation (p.evaluate #v[0])) = .go 1 :=
    opening_eq_go one_ne_zero (LinearModel.isFinite_eq_true _)
      (Bool.or_eq_false_iff.2 ⟨large rfl, large hgradient⟩)
  have running : Running o p #v[0] s := ⟨.initial opened, rfl, one_pos⟩
  obtain ⟨hmodels, hruns⟩ := accepted_iff_objective_lt (n := 1)
  obtain ⟨h, hstep, gains⟩ := hmodels e 1 ⟨0, hgradient.trans_ne two_ne_zero⟩ one_pos
  obtain ⟨h', hstep', -, decides⟩ := (hruns o p #v[0] ho).1 s running
  obtain rfl : h = h' := Option.some.inj (hstep.symm.trans hstep')
  have moved : 0 < h.normSq := by
    refine h.normSq_nonneg.lt_of_ne' fun hzero => gains.predicted_pos.ne' ?_
    rw [gains.predicted, Vec.normSq_add, Mat.identity_mulVec, Vec.dot_eq_zero _ _ hzero, hzero]
    ring
  have tried : s.Tries o h := by
    refine ⟨hstep, decide_eq_false fun hle => moved.ne' ?_⟩
    have hnorm : h.norm ≤ 0 := hle.trans_eq (zero_mul _)
    rw [← Vec.sq_norm, hnorm.antisymm h.norm_nonneg, zero_pow two_ne_zero]
  have value (x : ℝ) : Sized.normSq [x] = x * x := by
    refine (Sized.normSq_toList #v[x]).trans ?_
    rw [Vec.normSq_eq, dotProduct, Fin.sum_univ_one]
    rfl
  refine ⟨ho, running, h, tried, gains.predicted_pos, ?_, ?_⟩
  · rw [gains.accepted, value, ← Sized.normSq_toList]
    show _ < 0.5 * Sized.normSq [(2 : ℝ)]
    rw [value]
    norm_num
  · rw [(decides tried).accepted]
    exact lt_irrefl _

end LeastSquares.DogLeg
