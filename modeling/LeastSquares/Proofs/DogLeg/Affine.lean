/-
LeastSquares.Proofs.DogLeg.Affine — the trust region method on affine problems, computed exactly.

If the residuals are affine, then the gain of a step is the one that the linear model promises
(`actualGain_affine`). As this is positive, the gain ratio is one: every trial is accepted and the
radius grows up to three times the length of the step, so it is tripled by a step that it has cut
(`Running.succeeds`).
-/
import Mathlib
import LeastSquares.Proofs.DogLeg.Exact

namespace LeastSquares.DogLeg

open Problem (affine)

variable {m n : Nat} {A : Mat ℝ m n} {b : Vec ℝ m} {o : Options ℝ} {x₀ h : Vec ℝ n} {s : State ℝ n}

/-- The linear model of affine residuals promises the gain that there is. -/
theorem actualGain_affine (A : Mat ℝ m n) (b : Vec ℝ m) (x h : Vec ℝ n) :
    actualGain (.ofEvaluation ((affine A b).evaluate x)) ((affine A b).residuals (x.add h))
      = predictedGain (.ofEvaluation ((affine A b).evaluate x)) h := by
  have hplain := Problem.affine_consistent A b |>.plainError_eq (x.add h)
  have herror := Problem.error_affine_add A b x h
  show 0.5 * (affine A b).error x - 0.5 * (affine A b).plainError (x.add h)
    = -h.dot ((affine A b).gradient x) - 0.5 * (A.mulVec h).normSq
  rw [hplain, herror]
  ring

/-- The step `h` from the state `s` leads to the state `t`, as it should if the linear model was
right. -/
structure State.Succeeds (o : Options ℝ) (p : Problem ℝ n) (s : State ℝ n) (h : Vec ℝ n)
    (t : State ℝ n) : Prop where
  ratio : s.ratio p h = 1
  turned : s.turn o p = .go t
  point : t.point = s.point.add h
  error : p.error t.point < p.error s.point
  radius : t.radius = max s.radius (3 * h.norm)
  grows : s.radius ≤ t.radius
  /-- If the Gauss-Newton step is too long, the radius cuts the step and is tripled then. -/
  cut : ∀ newton, gaussNewton? s.model = some newton → s.radius < newton.norm →
    h.norm = s.radius ∧ t.radius = 3 * s.radius

/-- With a gain ratio of one the radius grows. -/
theorem State.radius_resize_one (s : State ℝ n) (o : Options ℝ) (length : ℝ) :
    (s.resize o length 1).radius = max s.radius (3 * length) := by
  rw [resize, if_pos (by norm_num), ← Exact.max_eq]
  norm_num

/-- A step whose promised gain is positive keeps the promise. -/
theorem State.ratio_affine (model : s.model = .ofEvaluation ((affine A b).evaluate s.point))
    (hgain : 0 < predictedGain s.model h) : s.ratio (affine A b) h = 1 := by
  have hactual : actualGain s.model ((affine A b).residuals (s.point.add h))
      = predictedGain s.model h := by
    rw [model]
    exact actualGain_affine A b s.point h
  rw [ratio, gainRatio, hactual]
  exact (if_pos hgain).trans (div_self hgain.ne')

/-- Every trial succeeds. -/
theorem Running.succeeds (ho : o.InRange) (hs : Running o (affine A b) x₀ s) (tried : s.Tries o h) :
    ∃ t, s.Succeeds o (affine A b) h t := by
  obtain ⟨j, moving⟩ := hs.exists_gradient_ne_zero ho
  have model := hs.reached.model_eq_ofEvaluation
  obtain ⟨newton, h', hnewton, hstep, hgain, shape⟩ :=
    exists_step _ moving (hs.reached.radius_pos ho)
  rw [← model] at hnewton hstep hgain
  obtain rfl : h = h' := Option.some.inj (tried.1.symm.trans hstep)
  have hratio := State.ratio_affine model hgain
  have hturn : s.turn o (affine A b)
      = .go ((s.afterMove o (affine A b) h).resize o h.norm 1) := by
    rw [State.turn_of_tries _ tried, hratio, if_pos one_pos,
      if_pos (LinearModel.isFinite_eq_true _)]
  have hradius : ((s.afterMove o (affine A b) h).resize o h.norm 1).radius
      = max s.radius (3 * h.norm) := State.radius_resize_one ..
  refine ⟨_, hratio, hturn, State.point_resize .., ?_, hradius, ?_, ?_⟩
  · obtain ⟨ts, history⟩ := hs.reached.exists_history
    rw [State.point_resize, State.point_afterMove,
      ← (Problem.affine_consistent A b).plainError_eq]
    exact history.tracks.plainError_lt (hratio ▸ one_pos)
  · exact hradius ▸ le_max_left _ _
  · intro newton' hnewton' hlong
    obtain rfl : newton = newton' := Option.some.inj (hnewton.symm.trans hnewton')
    obtain ⟨-, hnorm, -⟩ := shape.resolve_left fun hinside => hinside.1.not_gt hlong
    refine ⟨hnorm, ?_⟩
    have hpos := hs.reached.radius_pos ho
    rw [hradius, hnorm]
    exact max_eq_right (by linarith)

/-- On the residuals `A x + b` every trial of a run succeeds, so that the points it goes through
have smaller and smaller errors, and the run does not break down. -/
theorem minimize_affine_succeeds (A : Mat ℝ m n) (b : Vec ℝ m) (x₀ : Vec ℝ n) (o : Options ℝ)
    (ho : o.InRange) :
    (∀ s h, Running o (affine A b) x₀ s → s.Tries o h → ∃ t, s.Succeeds o (affine A b) h t)
      ∧ (∃ ts : List (Trial ℝ n), (minimize o (affine A b) x₀).requests.toList
          = .evaluation x₀ :: ts.flatMap (fun t => [.residuals t.point, .evaluation t.point])
        ∧ (∀ t ∈ ts, Running o (affine A b) x₀ t.state ∧ t.state.Tries o t.step)
        ∧ ts.IsChain fun t u => t.state.Succeeds o (affine A b) t.step u.state)
      ∧ (minimize o (affine A b) x₀).report.failure ≠ some .numerical := by
  obtain ⟨⟨ts, hrequests, tries, chain⟩, solved⟩ := exists_trials o (affine A b) x₀
  have succeeds (t : Trial ℝ n) (ht : t ∈ ts) :
      ∃ s, t.state.Succeeds o (affine A b) t.step s :=
    (tries t ht).1.succeeds ho (tries t ht).2
  refine ⟨fun _ _ hs tried => hs.succeeds ho tried, ⟨ts, ?_, tries, ?_⟩, solved⟩
  · rw [hrequests, List.flatMap_congr fun t ht => ?_]
    obtain ⟨s, hs⟩ := succeeds t ht
    have accepted : t.Accepted (affine A b) := one_pos.trans_eq hs.ratio.symm
    rw [Trial.requests, if_pos accepted]
  · refine chain.imp_of_mem_imp fun t u ht _ turned => ?_
    obtain ⟨s, hs⟩ := succeeds t ht
    obtain rfl : s = u.state := Turn.go.inj (hs.turned.symm.trans turned)
    exact hs

/-- From three and within a radius of one, the first step towards zero is cut, and the radius is
tripled. -/
theorem minimize_affine_succeeds_cut :
    let o : Options ℝ := { Options.standard with delta0 := some 1 }
    let p : Problem ℝ 1 := affine (.identity 1) #v[0]
    o.InRange ∧ ∃ s h t, Running o p #v[3] s ∧ s.Tries o h ∧ s.Succeeds o p h t ∧ s.radius = 1
      ∧ t.radius = 3 := by
  intro o p
  have ho : o.InRange :=
    { delta0 := by simp [o], epsilon := Options.inRange_standard.epsilon
      maxSteps := Options.inRange_standard.maxSteps }
  have entry (x : ℝ) : Vector.get #v[x] (0 : Fin 1) = x := rfl
  have he : p.evaluate #v[3] = ⟨1, #v[3], .identity 1⟩ := by
    show Evaluation.mk _ _ _ = _
    rw [Mat.identity_mulVec]
    refine congrArg (Evaluation.mk 1 · _) (Vec.ext_get fun i => ?_)
    fin_cases i
    simp [entry]
  have hgradient : (LinearModel.ofEvaluation (p.evaluate #v[3])).gradient.get 0 = 3 := by
    rw [he, LinearModel.get_gradient, Mat.toMatrix_identity, Matrix.transpose_one,
      Matrix.one_mulVec, entry]
  -- neither the residual nor the gradient is small
  have large {v : Vec ℝ 1} (hv : v.get 0 = 3) : decide (v.normInf ≤ o.epsilon) = false := by
    refine decide_eq_false fun hle => ?_
    have hle' := ((Vec.normInf_le_iff_abs v).1 hle).2 0
    rw [hv] at hle'
    norm_num [o, Options.standard] at hle'
  have opened : opening o #v[3] (.ofEvaluation (p.evaluate #v[3])) = .go 1 := by
    refine opening_eq_go one_ne_zero (LinearModel.isFinite_eq_true _) ?_
    refine Bool.or_eq_false_iff.2 ⟨?_, large hgradient⟩
    rw [he]
    exact large (entry 3)
  have running : Running o p #v[3] (.initial p #v[3] 1) := ⟨.initial opened, rfl, ho.maxSteps⟩
  obtain ⟨newton, h, hnewton, hstep, -, shape⟩ := exists_step (p.evaluate #v[3])
    (hgradient.trans_ne three_ne_zero) one_pos
  have hlong : 1 < newton.norm := by
    obtain ⟨-, hsolves⟩ := (Mat.solve?_eq_some_iff _ _).1 hnewton
    have hline : newton.get 0 + regularization * newton.get 0 = -3 := by
      have hrow := congrFun hsolves 0
      rw [LinearModel.toMatrix_shiftedNormal, he, Mat.toMatrix_identity, Matrix.transpose_one,
        one_mul, Matrix.add_mulVec, Matrix.smul_mulVec, Matrix.one_mulVec, Vec.get_scale, ← he,
        hgradient] at hrow
      exact hrow.trans (mul_neg_one 3)
    norm_num [regularization] at hline
    rw [Vec.norm_eq_abs]
    exact lt_abs.2 (.inr (by linarith))
  obtain ⟨-, hnorm, -⟩ := shape.resolve_left fun hinside => hinside.1.not_gt hlong
  have tried : (State.initial p #v[3] 1).Tries o h := by
    refine ⟨hstep, ?_⟩
    show decide (h.norm ≤ o.epsilon * (Vec.norm #v[3] + o.epsilon)) = false
    rw [hnorm, Vec.norm_eq_abs, entry]
    exact decide_eq_false (by norm_num [o, Options.standard])
  obtain ⟨t, succeeds⟩ :=
    (minimize_affine_succeeds (.identity 1) #v[0] #v[3] o ho).1 _ h running tried
  refine ⟨ho, _, h, t, running, tried, succeeds, rfl, ?_⟩
  exact (succeeds.cut newton hnewton hlong).2.trans (mul_one 3)

end LeastSquares.DogLeg
