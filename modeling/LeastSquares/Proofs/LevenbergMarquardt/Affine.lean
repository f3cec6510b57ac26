/-
LeastSquares.Proofs.LevenbergMarquardt.Affine — the damped method on affine problems, computed
exactly.

If `d` solves the damped equations at `x`, then the error at the trial `x - d` is the error at `x`,
less `|A d|² + 2 λ |d|²`. So a trial is never worse than the point it starts from, and it is better
unless the gradient there is zero (`State.Tracks.exists_trial`). A trial that is not better ends the
run, since its error is the same. Hence the damping is divided after each trial while a run goes on
(`History.steady`), each trial is the best point so far, and each that does not end the run lowers
the error by `ε` or more, which can happen only so often (`minimize_affine`).
-/
import Mathlib
import LeastSquares.Proofs.LevenbergMarquardt.Decrease
import LeastSquares.Proofs.LevenbergMarquardt.Exact
import LeastSquares.Proofs.LevenbergMarquardt.Verdict

namespace LeastSquares.LevenbergMarquardt

open Problem (affine)

variable {m n : Nat} {A : Mat ℝ m n} {b : Vec ℝ m} {o : Options ℝ} {x₀ x : Vec ℝ n} {s : State ℝ n}
  {ts : List (Trial ℝ n)}

/-! ## One trial -/

/-- What a trial `x` from `y` achieves: it is not worse, and better unless the gradient is zero. -/
def Improves (p : Problem ℝ n) (y x : Vec ℝ n) : Prop :=
  p.error x ≤ p.error y ∧ ((∃ j, (p.gradient y).get j ≠ 0) → p.error x < p.error y)

/-- With a positive damping there is a trial, and it improves the error. -/
theorem State.Tracks.exists_trial (h : s.Tracks (affine A b) x₀ ts) (damped : 0 < s.lambda) :
    ∃ x, s.trialPoint? = some x ∧ Improves (affine A b) s.point x := by
  let e := (affine A b).evaluate s.point
  obtain ⟨d, hd⟩ := LinearModel.exists_solution e damped (LinearModel.ofEvaluation e).gradient
  have hsolve : (s.model.shiftedNormal s.lambda).solve? s.model.gradient = some d := by
    rw [h.model]
    exact hd
  have htrial : s.trialPoint? = some (s.point.sub d) := trialPoint?_of_solution hsolve
  -- the linear model tells the error at the trial, and the equations the gain along `d`
  have hdrop : (affine A b).error (s.point.sub d)
      = (affine A b).error s.point - ((A.mulVec d).normSq + 2 * s.lambda * d.normSq) := by
    have hgain : d.dot ((affine A b).gradient s.point)
        = (A.mulVec d).normSq + s.lambda * d.normSq :=
      LinearModel.dot_of_solution hd d
    rw [Problem.error_affine_sub, hgain]
    ring
  have hAd := (A.mulVec d).normSq_nonneg
  have hdd := d.normSq_nonneg
  have hlambda := damped.le
  refine ⟨_, htrial, ?_, ?_⟩
  · rw [hdrop]
    exact sub_le_self _ (by positivity)
  · rintro ⟨j, hj⟩
    have hd' : 0 < d.normSq := LinearModel.normSq_solution_pos hd hj
    rw [hdrop]
    exact sub_lt_self _ (by positivity)

/-! ## A run -/

/-- As long as a run goes on, it stands at its last trial. The damping has been divided once for
each trial, and each of them has lowered the error by `ε` or more. -/
structure State.Steady (o : Options ℝ) (p : Problem ℝ n) (x₀ : Vec ℝ n) (ts : List (Trial ℝ n))
    (s : State ℝ n) : Prop where
  point : s.point = s.trial
  lambda : s.lambda = o.initialLambda / o.lambdaDown ^ ts.length
  lowered : p.error s.point + ts.length * o.epsilon ≤ p.error x₀

theorem State.Steady.damped {p : Problem ℝ n} (h : s.Steady o p x₀ ts) (ho : o.InRange) :
    0 < s.lambda := by
  have hinitial := ho.initialLambda
  have hdown := ho.lambdaDown
  rw [h.lambda]
  positivity

section Steps

variable {p : Problem ℝ n}

/-- A trial that improves the error and does not converge lowers it by `ε` or more. -/
theorem Improves.lowers {t : Trial ℝ n} (h : Improves p t.state.point t.point)
    (goesOn : ¬ t.Converges o p) : p.error t.point + o.epsilon ≤ p.error t.state.point := by
  have hgap := Trial.le_gap goesOn
  rw [abs_of_nonneg (sub_nonneg.2 h.1)] at hgap
  linarith

/-- Such a trial is accepted. -/
theorem Improves.accepted {t : Trial ℝ n} (h : Improves p t.state.point t.point)
    (hpos : 0 < o.epsilon) (goesOn : ¬ t.Converges o p) : t.Accepted p :=
  (lt_add_of_pos_right _ hpos).trans_le (h.lowers goesOn)

/-- A trial after which the run goes on keeps it steady. -/
theorem State.Steady.advance (h : s.Steady o p x₀ ts) (tracks : s.Tracks p x₀ ts)
    (hpos : 0 < o.epsilon) (improves : Improves p s.point x)
    (goesOn : ¬ Trial.Converges o p ⟨s, x⟩) :
    (s.advance o x (p.evaluate x)).Steady o p x₀ (ts ++ [⟨s, x⟩]) := by
  have accepted : Trial.Accepted p ⟨s, x⟩ := Improves.accepted improves hpos goesOn
  have hlower : p.error x + o.epsilon ≤ p.error s.point :=
    Improves.lowers (t := ⟨s, x⟩) improves goesOn
  have hpoint : (s.advance o x (p.evaluate x)).point = x := by
    rw [tracks.point_advance]
    exact if_pos accepted
  have hlambda : (s.advance o x (p.evaluate x)).lambda = s.lambda / o.lambdaDown := by
    rw [lambda_advance, tracks.model]
    exact if_pos accepted
  refine ⟨?_, ?_, ?_⟩
  · rw [hpoint, trial_advance]
  · rw [hlambda, h.lambda, List.length_append, List.length_singleton, pow_succ, div_div]
  · have hbefore := h.lowered
    rw [hpoint, List.length_append, List.length_singleton]
    push_cast
    linarith

end Steps

theorem History.steady (h : History o (affine A b) x₀ ts s) (ho : o.InRange) (hpos : 0 < o.epsilon)
    (running : s.converged = false) : s.Steady o (affine A b) x₀ ts := by
  induction h with
  | start _ =>
    refine ⟨rfl, ?_, ?_⟩
    · simp [State.start]
    · simp [State.start]
  | @next ts s x history before _ solved ih =>
    have steady := ih before
    obtain ⟨x', solved', improves⟩ := history.tracks.exists_trial (steady.damped ho)
    obtain rfl : x = x' := Option.some.inj (solved.symm.trans solved')
    refine steady.advance history.tracks hpos improves fun converges => ?_
    rw [State.converged_advance, history.tracks.endsAt_iff.2 converges] at running
    contradiction

/-! ## What a whole run achieves -/

/-- Before each trial the run has made those before it, and it goes on. -/
theorem History.of_getElem? {p : Problem ℝ n} (h : History o p x₀ ts s) {i : Nat} {t : Trial ℝ n}
    (ht : ts[i]? = some t) : History o p x₀ (ts.take i) t.state ∧ t.state.converged = false
      ∧ t.state.trialPoint? = some t.point := by
  obtain ⟨hi, rfl⟩ := List.getElem?_eq_some_iff.1 ht
  obtain ⟨s', hbefore⟩ := h.take (Nat.succ_le_of_lt hi)
  rw [List.take_succ_eq_append_getElem hi] at hbefore
  obtain ⟨history, running, solved, -⟩ := hbefore.of_concat
  exact ⟨history, running, solved⟩

section Affine

variable (h : History o (affine A b) x₀ ts s) (ho : o.InRange) (hpos : 0 < o.epsilon)
include h ho hpos

theorem History.steady_before {i : Nat} {t : Trial ℝ n} (ht : ts[i]? = some t) :
    t.state.lambda = o.initialLambda / o.lambdaDown ^ i
      ∧ Improves (affine A b) t.state.point t.point := by
  obtain ⟨history, running, solved⟩ := h.of_getElem? ht
  have steady := history.steady ho hpos running
  obtain ⟨x, hx, improves⟩ := history.tracks.exists_trial (steady.damped ho)
  obtain rfl : t.point = x := Option.some.inj (solved.symm.trans hx)
  obtain ⟨hi, -⟩ := List.getElem?_eq_some_iff.1 ht
  refine ⟨?_, improves⟩
  rw [steady.lambda, List.length_take_of_le hi.le]

theorem History.improves : ∀ t ∈ ts, Improves (affine A b) t.state.point t.point := by
  intro t ht
  obtain ⟨i, hi⟩ := List.mem_iff_getElem?.1 ht
  exact (h.steady_before ho hpos hi).2

/-- The last trial is the best point of all. -/
theorem History.error_trial_le :
    ∀ y ∈ x₀ :: ts.map Trial.point, (affine A b).error s.trial ≤ (affine A b).error y := by
  induction h with
  | start _ => simp [State.start]
  | @next ts s x history running budget solved ih =>
    have hpoint := (history.steady ho hpos running).point
    have hx : (affine A b).error x ≤ (affine A b).error s.trial := by
      rw [← hpoint]
      exact ((history.next running budget solved).improves ho hpos ⟨s, x⟩ (by simp)).1
    rw [State.trial_advance, List.map_append, ← List.cons_append]
    intro y hy
    rcases List.mem_append.1 hy with hbefore | hlast
    · exact hx.trans (ih y hbefore)
    · obtain rfl := List.mem_singleton.1 hlast
      exact le_rfl

/-- If no trial starts from a point with the gradient zero, the damping has been divided for
each. -/
theorem History.lambda_of_gradient
    (moving : ∀ t ∈ ts, ∃ j, ((affine A b).gradient t.state.point).get j ≠ 0) :
    s.lambda = o.initialLambda / o.lambdaDown ^ ts.length := by
  cases h with
  | start _ => simp [State.start]
  | @next ts s x history running budget solved =>
    have improves := (history.next running budget solved).improves ho hpos ⟨s, x⟩ (by simp)
    have accepted := improves.2 (moving ⟨s, x⟩ (by simp))
    rw [State.lambda_advance, history.tracks.model, List.length_append, List.length_singleton,
      pow_succ, ← div_div, ← (history.steady ho hpos running).lambda]
    exact if_pos accepted

/-- A run goes on until a trial converges or the budget is spent. -/
theorem History.eq_finish {r : Run ℝ n} (hend : s.Ends o r) : r = s.finish := by
  cases hend with
  | converged _ => rfl
  | outOfSteps _ => rfl
  | unsolved running _ unsolved =>
    obtain ⟨x, hx, -⟩ := h.tracks.exists_trial ((h.steady ho hpos running).damped ho)
    rw [unsolved] at hx
    contradiction

/-- As the error cannot become negative, only so many trials do not converge. -/
theorem History.length_le (running : s.converged = false) :
    ts.length ≤ (affine A b).error x₀ / o.epsilon := by
  have hlowered := (h.steady ho hpos running).lowered
  have herror : 0 ≤ (affine A b).error s.point := Vec.normSq_nonneg _
  rw [le_div_iff₀ hpos]
  linarith

end Affine

/-- What a run and its trials `ts` achieve, up to the state `s` after them. -/
structure Run.Descends (o : Options ℝ) (p : Problem ℝ n) (x₀ : Vec ℝ n) (ts : List (Trial ℝ n))
    (s : State ℝ n) (r : Run ℝ n) : Prop where
  improves : ∀ t ∈ ts, p.error t.point ≤ p.error t.state.point
    ∧ ((∃ j, (p.gradient t.state.point).get j ≠ 0) → p.error t.point < p.error t.state.point)
  /-- Only a trial that ends the run may be rejected. -/
  accepted : ∀ t ∈ ts, ¬ t.Converges o p → t.Accepted p
  /-- The damping of each trial is the one before it, divided. -/
  lambda : ∀ i t, ts[i]? = some t → t.state.lambda = o.initialLambda / o.lambdaDown ^ i
  /-- So is the damping after the last trial, unless this one had nowhere to go. -/
  lastLambda : (∀ t ∈ ts, ∃ j, (p.gradient t.state.point).get j ≠ 0) →
    s.lambda = o.initialLambda / o.lambdaDown ^ ts.length
  best : ∃ x, r.point = some x
    ∧ ∀ y, .evaluation y ∈ r.requests.toList → p.error x ≤ p.error y
  solved : r.report.failure ≠ some .numerical
  patience : p.error x₀ / o.epsilon + 1 < o.maxSteps → r.report.failure = none

/-- A run of the damped method on the residuals `A x + b` never makes a trial that is worse than the
point where it stands, and it ends without failure if its budget allows for it. -/
theorem minimize_affine (hm : 1 ≤ m) (A : Mat ℝ m n) (b : Vec ℝ m) (x₀ : Vec ℝ n) (o : Options ℝ)
    (ho : o.InRange) (hpos : 0 < o.epsilon) :
    ∃ ts s, (minimize o (affine A b) x₀).Verdict o (affine A b) x₀ ts s
      ∧ (minimize o (affine A b) x₀).Descends o (affine A b) x₀ ts s := by
  have count : ((affine A b).evaluate x₀).count ≠ 0 := Nat.ne_of_gt hm
  obtain ⟨ts, s, h, hend⟩ := exists_history count o
  have verdict := h.verdict hend
  have improves := h.improves ho hpos
  have finish := h.eq_finish ho hpos hend
  have failure : (minimize o (affine A b) x₀).report.failure
      = if s.converged then none else some .lostPatience := by
    rw [finish]
    rfl
  refine ⟨ts, s, verdict, improves, ?_, ?_, ?_, ?_, ?_, ?_⟩
  · exact fun t ht goesOn => Improves.accepted (improves t ht) hpos goesOn
  · exact fun i t ht => (h.steady_before ho hpos ht).1
  · exact h.lambda_of_gradient ho hpos
  · refine ⟨s.trial, by rw [finish]; rfl, fun y hy => ?_⟩
    rw [verdict.requests] at hy
    obtain ⟨z, hz, hyz⟩ := List.mem_map.1 hy
    exact Request.evaluation.inj hyz ▸ h.error_trial_le ho hpos z hz
  · rw [failure]
    split_ifs <;> simp
  · intro hbudget
    rw [failure]
    cases hs : s.converged with
    | true => rfl
    | false =>
      -- the budget would be spent with trials that do not converge
      have hlength := h.length_le ho hpos hs
      rw [hs] at failure
      rw [(verdict.lostPatience.1 failure).1] at hlength
      linarith

/-- The residuals `x` and `x - 2` do not vanish together; the run finds the best point all the
same. -/
theorem minimize_affine_pair :
    let p : Problem ℝ 1 := affine #v[#v[1], #v[1]] #v[0, -2]
    1 ≤ 2 ∧ Options.standard.InRange ∧ 0 < (Options.standard : Options ℝ).epsilon
      ∧ (∃ ts s, (minimize .standard p #v[3]).Verdict .standard p #v[3] ts s
        ∧ (minimize .standard p #v[3]).Descends .standard p #v[3] ts s)
      ∧ (minimize .standard p #v[3]).report.failure = none := by
  intro p
  have hpos : 0 < (Options.standard : Options ℝ).epsilon := by norm_num [Options.standard]
  obtain ⟨ts, s, verdict, descends⟩ := minimize_affine one_le_two #v[#v[1], #v[1]] #v[0, -2] #v[3]
    .standard Options.inRange_standard hpos
  refine ⟨one_le_two, Options.inRange_standard, hpos, ⟨ts, s, verdict, descends⟩,
    descends.patience ?_⟩
  have herror : p.error #v[3] = 10 := by
    show ((Mat.mulVec #v[#v[1], #v[1]] #v[3]).add #v[0, -2]).normSq = 10
    rw [Vec.normSq_eq, Vec.get_add_eq, Mat.get_mulVec_eq]
    simp only [dotProduct, Matrix.mulVec, Fin.sum_univ_two, Fin.sum_univ_one, Pi.add_apply,
      Mat.toMatrix_apply]
    norm_num [Mat.entry, Vector.get]
  show p.error #v[3] / _ + 1 < _
  rw [herror]
  norm_num [Options.standard]

end LeastSquares.LevenbergMarquardt
