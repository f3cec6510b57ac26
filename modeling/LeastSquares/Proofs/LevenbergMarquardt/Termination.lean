/-
LeastSquares.Proofs.LevenbergMarquardt.Termination — do runs with any budget come to an end?

Without a bound on the steps, nothing in the loop counts down. An accepted trial makes the error
smaller, and a rejected one makes the damping larger in magnitude if it grows by a factor of two or
more. There are finitely many doubles, so neither can go on forever (`wellFounded_progress`), and a
run ends unless the damping stops growing. Then the run is stalled (`State.Stalled`): the next trial
is the one that has just been rejected, and all steps that the budget allows are spent on it
(`steps_loop_of_stalled`).

So a run has a bound on its steps, whatever the budget, if and only if it never stalls
(`steps_bounded_iff`). It may stall in two ways only: with a damping that has become zero by the
divisions after accepted trials (`steps_unbounded_kink`); or, if there is one unknown only, with an
infinite damping, where the step is zero and the error is infinite. The test of the difference of
two errors should end the run there, but the difference of two infinite errors is no number
(`steps_unbounded_huge`).
-/
import LeastSquares.Problem.Constraints
import LeastSquares.Proofs.Elimination
import LeastSquares.Proofs.LevenbergMarquardt.Iterates

namespace LeastSquares.LevenbergMarquardt

open Double Postfix

variable {K : Type} [Scalar K] {n : Nat}

/-- The settings with another step budget. -/
def Options.withMaxSteps (o : Options K) (k : Nat) : Options K :=
  { o with maxSteps := k }

/-! ## Standstill -/

/-- The next trial point is `x`. The trial does not end the run and is rejected, and the damping
stays as it is. -/
structure State.Stalled (o : Options K) (p : Problem K n) (s : State K n) (x : Vec K n) : Prop where
  running : s.converged = false
  solved : s.trialPoint? = some x
  goesOn : s.endsAt o (p.evaluate x) = false
  rejected : ¬ (p.evaluate x).residuals.normSq < s.model.error
  damped : s.lambda * o.lambdaUp = s.lambda

section Loop

variable {o : Options K} {p : Problem K n} {x₀ x : Vec K n} {s : State K n} {ts : List (Trial K n)}

/-- The trial at a standstill changes nothing that the next step looks at. -/
theorem State.Stalled.advance (h : s.Stalled o p x) :
    (s.advance o x (p.evaluate x)).Stalled o p x := by
  have hpoint : (s.advance o x (p.evaluate x)).point = s.point := by
    rw [point_advance, if_neg h.rejected]
  have hmodel : (s.advance o x (p.evaluate x)).model = s.model := by
    rw [model_advance, if_neg h.rejected]
  have hlambda : (s.advance o x (p.evaluate x)).lambda = s.lambda := by
    rw [lambda_advance, if_neg h.rejected, h.damped]
  constructor
  · exact (converged_advance ..).trans h.goesOn
  · rw [← h.solved, trialPoint?, trialPoint?, hpoint, hmodel, hlambda]
  · rw [← h.goesOn, endsAt, endsAt, hmodel]
  · rw [hmodel]
    exact h.rejected
  · rw [hlambda, h.damped]

/-- At a standstill all steps of the budget are made. -/
theorem steps_loop_of_stalled (h : s.Stalled o p x) (budget : Nat) :
    (loop o p budget s).report.steps = s.steps + budget := by
  induction budget generalizing s with
  | zero => rfl
  | succ budget ih =>
    rw [loop, h.running, h.solved]
    exact (ih h.advance).trans (by rw [State.steps_advance]; omega)

/-- The number of steps from a state on has a bound that holds for every budget. -/
def State.Bounded (o : Options K) (p : Problem K n) (s : State K n) : Prop :=
  ∃ N, ∀ budget, (loop o p budget s).report.steps ≤ N

/-- A run that has converged, or has nothing to try, makes no further steps. -/
theorem State.bounded_of_ended (h : s.converged = true ∨ s.trialPoint? = none) :
    s.Bounded o p := by
  refine ⟨s.steps, fun budget => ?_⟩
  cases budget with
  | zero => exact le_rfl
  | succ budget =>
    rw [loop]
    split_ifs with running
    · exact le_rfl
    · rw [h.resolve_left running]
      exact le_rfl

/-- What is bounded after a step is bounded before it. -/
theorem State.Bounded.of_advance (running : s.converged = false) (solved : s.trialPoint? = some x)
    (h : (s.advance o x (p.evaluate x)).Bounded o p) : s.Bounded o p := by
  obtain ⟨N, hN⟩ := h
  refine ⟨max s.steps N, fun budget => ?_⟩
  cases budget with
  | zero => exact le_max_left _ _
  | succ budget =>
    rw [loop, running, solved]
    exact (hN budget).trans (le_max_right _ _)

end Loop

/-! ## Progress -/

section Progress

variable {o : Options Float} {p : Problem Float n} {x : Vec Float n} {s : State Float n}

/-- The error becomes smaller, or the damping becomes larger in magnitude while the error stays. -/
def Progress : Float × Float → Float × Float → Prop :=
  Prod.Lex (fun a b => a < b) fun a b => (value b).abs < (value a).abs

/-- There is no endless progress, as there are finitely many doubles. -/
theorem wellFounded_progress : WellFounded Progress := by
  have herror : WellFounded fun a b : Float => a < b := by
    have : IsTrans Float fun a b => a < b := ⟨fun _ _ _ => OrderedScalar.lt_trans⟩
    have : Std.Irrefl fun a b : Float => a < b := ⟨fun _ h => lt_irrefl _ (lt_iff_value.1 h).2.2⟩
    exact Finite.wellFounded_of_trans_of_irrefl _
  have hdamping : WellFounded fun a b : Float => (value b).abs < (value a).abs := by
    have : IsTrans Float fun a b => (value b).abs < (value a).abs := ⟨fun _ _ _ h g => g.trans h⟩
    have : Std.Irrefl fun a b : Float => (value b).abs < (value a).abs := ⟨fun _ => lt_irrefl _⟩
    exact Finite.wellFounded_of_trans_of_irrefl _
  exact WellFounded.prod_lex herror hdamping

/-- A trial after which the run goes on makes progress, or the run is stalled. -/
theorem State.progress_or_stalled (hup : 2.0 ≤ o.lambdaUp) (running : s.converged = false)
    (solved : s.trialPoint? = some x)
    (goesOn : (s.advance o x (p.evaluate x)).converged = false)
    (hnumber : (s.advance o x (p.evaluate x)).lambda.isNaN = false) :
    Progress ((s.advance o x (p.evaluate x)).model.error, (s.advance o x (p.evaluate x)).lambda)
        (s.model.error, s.lambda)
      ∨ s.Stalled o p x := by
  rw [converged_advance] at goesOn
  rw [lambda_advance] at hnumber
  rw [model_advance, lambda_advance]
  split_ifs at hnumber ⊢ with accepted
  · exact .inl (.left _ _ accepted)
  · rcases mul_cases hup s.lambda with damped | hnan | larger
    · exact .inr ⟨running, solved, goesOn, accepted, damped⟩
    · exact absurd (hnan.symm.trans hnumber) (by decide)
    · exact .inl (.right _ larger)

end Progress

/-! ## The damped equations -/

section Equations

variable {m : Nat} {x : Vec Float (m + 1)} {s : State Float (m + 1)}

theorem State.trialPoint?_eq_none
    (h : ∀ d, (s.model.shiftedNormal s.lambda).solve? s.model.gradient = some d →
      d.toList.any Float.isNaN = true) : s.trialPoint? = none := by
  unfold trialPoint?
  cases hd : (s.model.shiftedNormal s.lambda).solve? s.model.gradient with
  | none => rfl
  | some d => exact if_pos (h d hd)

theorem LinearModel.entry_shiftedNormal (a : LinearModel K n) (shift : K) (i j : Fin n) :
    (a.shiftedNormal shift).entry i j
      = a.normal.entry i j + (if i = j then 1 else 0) * shift := by
  rw [LinearModel.shiftedNormal, Mat.entry_add, Mat.entry_scale, Mat.entry_identity]

/-- With a damping that is no number there is nothing to try. -/
theorem State.trialPoint?_of_isNaN (hnan : s.lambda.isNaN = true) : s.trialPoint? = none := by
  have htainted : Factors.Tainted 0 (s.model.shiftedNormal s.lambda) := fun i j _ _ => by
    rw [LinearModel.entry_shiftedNormal]
    exact isNaN_add (.inr (isNaN_mul (.inr hnan)))
  exact trialPoint?_eq_none fun d hd => Mat.isNaN_solution htainted.ofMat (Nat.zero_le m) hd

/-- A diagonal entry with an infinite damping is infinite, or no number. -/
theorem isInf_or_isNaN_diagonal {a : LinearModel Float (m + 1)} {lambda : Float}
    (hinf : lambda.isInf = true) (i : Fin (m + 1)) :
    ((a.shiftedNormal lambda).entry i i).isInf = true
      ∨ ((a.shiftedNormal lambda).entry i i).isNaN = true := by
  rw [LinearModel.entry_shiftedNormal, if_pos rfl]
  exact isInf_add_or (isInf_one_mul hinf)

/-- With an infinite damping and more than one unknown there is nothing to try. -/
theorem State.trialPoint?_of_isInf (hinf : s.lambda.isInf = true) (hm : 1 ≤ m) :
    s.trialPoint? = none := by
  have off (i j : Fin (m + 1)) (hij : i ≠ j) :
      ((s.model.shiftedNormal s.lambda).entry i j).isNaN = true := by
    rw [LinearModel.entry_shiftedNormal, if_neg hij]
    exact isNaN_add (.inr (isNaN_zero_mul hinf))
  have pivot : ((s.model.shiftedNormal s.lambda).entry 0 0 == 0) = false := by
    rcases isInf_or_isNaN_diagonal (a := s.model) hinf 0 with h | h
    · exact beq_zero_of_isInf h
    · exact beq_of_isNaN h _
  exact trialPoint?_eq_none fun d hd =>
    Mat.isNaN_solution (Factors.tainted_ofMat off pivot) hm hd

end Equations

/-! ## Where a run may stall -/

section Stalled

variable {o : Options Float} {p : Problem Float n} {x₀ x : Vec Float n} {s : State Float n}
  {ts : List (Trial Float n)}

/-- The residuals are numbers if an entry of the gradient is. -/
theorem isNaN_of_gradient {e : Evaluation Float n} {i : Fin n}
    (h : ((LinearModel.ofEvaluation e).gradient.get i).isNaN = false) :
    ∀ r ∈ e.residuals.toList, r.isNaN = false := by
  rw [LinearModel.ofEvaluation, Mat.get_mulVec] at h
  rw [Vec.forall_mem_toList]
  intro k
  exact (isNaN_of_mul (isNaN_of_chainSum h _ (List.mem_map_of_mem (List.mem_finRange k)))).2

/-- The next trial point in one unknown. -/
theorem State.trialPoint?_one {s : State Float 1} {x : Vec Float 1}
    (solved : s.trialPoint? = some x) :
    ∃ q : Float, q = s.model.gradient.get 0 / (s.model.shiftedNormal s.lambda).entry 0 0
      ∧ q.isNaN = false ∧ x = s.point.sub #v[q] := by
  rw [trialPoint?, Mat.solve?_one] at solved
  split_ifs at solved
  obtain ⟨hnumber, hx⟩ := by simpa using solved
  exact ⟨_, rfl, hnumber, hx.symm⟩

/-- With an infinite damping and one unknown the step is zero. The run stalls if the error is
infinite, or if the step changes the sign of a zero. -/
theorem State.Stalled.of_isInf {p : Problem Float 1} {x₀ x : Vec Float 1} {s : State Float 1}
    {ts : List (Trial Float 1)} (h : s.Stalled o p x) (tracks : s.Tracks p x₀ ts)
    (hpos : 0.0 < o.epsilon) (hinf : s.lambda.isInf = true) :
    (p.error s.point).isInf = true ∨ s.point.get 0 = -0.0 := by
  obtain ⟨q, hq, hnumber, hx⟩ := trialPoint?_one h.solved
  have hzero : (q == 0.0) = true := by
    rw [hq] at hnumber ⊢
    rcases isInf_or_isNaN_diagonal hinf 0 with hdiagonal | hdiagonal
    · rcases div_isInf_or hdiagonal with hzero | hnan
      · exact hzero
      · exact absurd (hnan.symm.trans hnumber) (by decide)
    · exact absurd ((isNaN_of_div hnumber).2.symm.trans hdiagonal) (by decide)
  rcases sub_eq_self_or (a := s.point.get 0) hzero with hsame | hneg
  · -- the trial is made at the current point, and the test of the errors must fail there
    left
    have hpoint : x = s.point := by
      refine hx.trans (Vec.ext_get fun i => ?_)
      obtain rfl : i = 0 := Subsingleton.elim _ _
      rw [Vec.get_sub]
      exact hsame
    have herror : s.model.error = p.error s.point := by rw [tracks.model]; rfl
    have hfar : ¬ (p.error s.point - p.error s.point).abs < o.epsilon := fun hlt => by
      have hends := h.goesOn
      rw [endsAt, Bool.or_eq_false_iff, hpoint, herror] at hends
      exact absurd (hends.2.symm.trans (decide_eq_true hlt)) (by decide)
    have hnan : (p.error s.point).isNaN = false := by
      rw [hq, tracks.model] at hnumber
      exact Vec.isNaN_normSq_iff.2 (isNaN_of_gradient (isNaN_of_div hnumber).1)
    refine isInf_of_not_finite (Bool.not_eq_true _ ▸ fun hfinite => hfar ?_) hnan
    rw [sub_self hfinite]
    exact hpos
  · exact .inr hneg

/-- A run may stall with a damping of zero, and in one unknown with an infinite one. -/
theorem State.Stalled.cases (h : s.Stalled o p x) (tracks : s.Tracks p x₀ ts) (hn : 0 < n)
    (hpos : 0.0 < o.epsilon) (hup : 2.0 ≤ o.lambdaUp) : (s.lambda == 0.0) = true
      ∨ n = 1 ∧ s.lambda.isInf = true
        ∧ ((p.error s.point).isInf = true ∨ ∀ i, s.point.get i = -0.0) := by
  obtain ⟨m, rfl⟩ : ∃ m, n = m + 1 := ⟨n - 1, by omega⟩
  have hsolved : s.trialPoint? ≠ none := by simp [h.solved]
  rcases isInf_or_of_mul_eq_self hup h.damped with hnan | hinf | hzero
  · exact absurd (trialPoint?_of_isNaN hnan) hsolved
  · rcases Nat.eq_zero_or_pos m with rfl | hm
    · refine .inr ⟨rfl, hinf, (h.of_isInf tracks hpos hinf).imp_right fun hneg i => ?_⟩
      obtain rfl : i = 0 := Fin.fin_one_eq_zero i
      exact hneg
    · exact absurd (trialPoint?_of_isInf hinf hm) hsolved
  · exact .inl hzero

end Stalled

/-! ## Runs with any budget -/

section Budget

variable {o : Options K} {p : Problem K n} {x₀ x : Vec K n} {s : State K n} {ts : List (Trial K n)}

/-- A step does not look at the budget. -/
theorem iteration_withMaxSteps (o : Options K) (p : Problem K n) (k : Nat) :
    iteration (o.withMaxSteps k) p = iteration o p :=
  rfl

theorem loop_withMaxSteps (k budget : Nat) (s : State K n) :
    loop (o.withMaxSteps k) p budget s = loop o p budget s := by
  rw [loop_eq_run, loop_eq_run, iteration_withMaxSteps]

theorem minimize_withMaxSteps (count : (p.evaluate x₀).count ≠ 0) (k : Nat) :
    minimize (o.withMaxSteps k) p x₀ = loop o p k (.start o x₀ (p.evaluate x₀)) := by
  rw [minimize, if_neg count]
  exact loop_withMaxSteps k k _

/-- What a run does until a state depends on the budget only in so far as it has to be enough. -/
theorem History.withMaxSteps {k l : Nat} (h : History (o.withMaxSteps k) p x₀ ts s)
    (enough : s.steps ≤ l) : History (o.withMaxSteps l) p x₀ ts s := by
  induction h with
  | start count => exact .start count
  | next _ running _ solved ih =>
    rw [State.steps_advance] at enough
    exact (ih (by omega)).next running enough solved

/-- A run that stalls makes as many steps as it may. -/
theorem History.steps_of_stalled {k l : Nat} (h : History (o.withMaxSteps k) p x₀ ts s)
    (stalled : s.Stalled o p x) (enough : s.steps ≤ l) :
    (minimize (o.withMaxSteps l) p x₀).report.steps = l := by
  rw [(h.withMaxSteps enough).minimize_eq.2, loop_withMaxSteps, steps_loop_of_stalled stalled]
  exact Nat.add_sub_cancel' enough

/-- There is no bound on the steps of a run that stalls. -/
theorem History.unbounded {k : Nat} (h : History (o.withMaxSteps k) p x₀ ts s)
    (stalled : s.Stalled o p x) :
    ¬ ∃ N, ∀ l, (minimize (o.withMaxSteps l) p x₀).report.steps ≤ N := by
  rintro ⟨N, hN⟩
  have hle := hN (max (N + 1) s.steps)
  rw [h.steps_of_stalled stalled (le_max_right ..)] at hle
  omega

end Budget

section Bound

variable {o : Options Float} {p : Problem Float n} {x₀ : Vec Float n} {s : State Float n}
  {ts : List (Trial Float n)}

/-- A run that never stalls is bounded from each of its states on. -/
theorem History.bounded (hn : 0 < n) (hup : 2.0 ≤ o.lambdaUp)
    (never : ∀ k ts s x, History (o.withMaxSteps k) p x₀ ts s → ¬ s.Stalled o p x) {k : Nat}
    (h : History (o.withMaxSteps k) p x₀ ts s) : s.Bounded o p := by
  obtain ⟨m, rfl⟩ : ∃ m, n = m + 1 := ⟨n - 1, by omega⟩
  -- by induction on the progress that can still be made
  induction hmeasure : (s.model.error, s.lambda) using wellFounded_progress.induction
    generalizing k ts s with
  | _ a ih =>
    by_cases ended : s.converged = true ∨ s.trialPoint? = none
    · exact State.bounded_of_ended ended
    rw [not_or, Bool.not_eq_true] at ended
    obtain ⟨running, hsolved⟩ := ended
    obtain ⟨x, solved⟩ := Option.ne_none_iff_exists'.1 hsolved
    refine State.Bounded.of_advance running solved ?_
    by_cases ended : (s.advance o x (p.evaluate x)).converged = true
        ∨ (s.advance o x (p.evaluate x)).trialPoint? = none
    · exact State.bounded_of_ended ended
    rw [not_or, Bool.not_eq_true] at ended
    obtain ⟨goesOn, hsolved⟩ := ended
    have hnumber : (s.advance o x (p.evaluate x)).lambda.isNaN = false :=
      Bool.not_eq_true _ ▸ fun hnan => hsolved (State.trialPoint?_of_isNaN hnan)
    rcases State.progress_or_stalled hup running solved goesOn hnumber with hless | stalled
    · have hnext : History (o.withMaxSteps (s.steps + 1)) p x₀ _ (s.advance o x (p.evaluate x)) :=
        (h.withMaxSteps (Nat.le_succ _)).next running (Nat.lt_succ_self _) solved
      exact ih _ (hmeasure ▸ hless) hnext rfl
    · exact absurd stalled (never _ _ _ _ h)

end Bound

/-- For settings with a positive threshold and a damping that at least doubles, the number of steps
has a bound that holds for every budget, if and only if no run comes to a state where it stalls. If
a run stalls, its damping is zero; or there is one unknown, the damping is infinite, and the error is
infinite or the point is the negative zero. -/
theorem steps_bounded_iff (o : Options Float) (p : Problem Float n) (x₀ : Vec Float n) (hn : 0 < n)
    (hpos : 0.0 < o.epsilon) (hup : 2.0 ≤ o.lambdaUp) :
    ((∃ N, ∀ k, (minimize (o.withMaxSteps k) p x₀).report.steps ≤ N) ↔
        ∀ k ts s x, History (o.withMaxSteps k) p x₀ ts s → ¬ s.Stalled o p x)
      ∧ ∀ k ts s x, History (o.withMaxSteps k) p x₀ ts s → s.Stalled o p x →
        (s.lambda == 0.0) = true
          ∨ n = 1 ∧ s.lambda.isInf = true
            ∧ ((p.error s.point).isInf = true ∨ ∀ i, s.point.get i = -0.0) := by
  refine ⟨⟨fun bounded k ts s x h stalled => h.unbounded stalled bounded, fun never => ?_⟩,
    fun k ts s x h stalled => stalled.cases h.tracks hn hpos hup⟩
  · by_cases count : (p.evaluate x₀).count = 0
    · refine ⟨0, fun k => ?_⟩
      rw [minimize, if_pos count]
      rfl
    · have start : History (o.withMaxSteps 0) p x₀ [] _ := .start count
      obtain ⟨N, hN⟩ := start.bounded hn hup never
      refine ⟨N, fun k => ?_⟩
      rw [minimize_withMaxSteps count]
      exact hN k

/-- The first trial on `steep` goes from one to zero with the right damping, and the run ends there
with any budget. -/
theorem steps_bounded_steep :
    let o : Options Float := { Options.standard with initialLambda := 0.109375 }
    0.0 < o.epsilon ∧ 2.0 ≤ o.lambdaUp
      ∧ ∃ N, ∀ k, (minimize (o.withMaxSteps k) steep #v[1.0]).report.steps ≤ N := by
  intro o
  have hpos : 0.0 < o.epsilon := by decide +kernel
  have hup : 2.0 ≤ o.lambdaUp := by decide +kernel
  refine ⟨hpos, hup, (steps_bounded_iff o steep #v[1.0] one_pos hpos hup).1.2 ?_⟩
  intro k ts s x h stalled
  have solved : (State.start o #v[1.0] (steep.evaluate #v[1.0])).trialPoint? = some #v[0.0] := by
    decide +kernel
  have ends : (State.start o #v[1.0] (steep.evaluate #v[1.0])).endsAt o (steep.evaluate #v[0.0])
      = true := by decide +kernel
  -- the run makes its first step, and no other
  have states : s = .start o #v[1.0] (steep.evaluate #v[1.0]) ∨ s.converged = true := by
    clear stalled
    induction h with
    | start _ => exact .inl rfl
    | next _ running _ hx ih =>
      rcases ih with rfl | found
      · obtain rfl := Option.some.inj (hx.symm.trans solved)
        exact .inr ((State.converged_advance ..).trans ends)
      · exact absurd (running.symm.trans found) (by decide)
  rcases states with rfl | found
  · obtain rfl := Option.some.inj (stalled.solved.symm.trans solved)
    exact absurd (stalled.goesOn.symm.trans ends) (by decide)
  · exact absurd (stalled.running.symm.trans found) (by decide)

/-- The residual `x`. -/
def coordinate : Constraints :=
  ⟨["x"], [⟨[.parameter "x" (Fin.last 0)], rfl⟩]⟩

/-- Where the square of the residual is infinite and the damping has become so, the run makes as many
steps as it may, although the trial is the point where it stands. -/
theorem steps_unbounded_huge :
    let o : Options Float := { Options.standard with initialLambda := 1e308 }
    let p : Problem Float 1 := coordinate.problem
    Constraints.ofExpressions ["x"] ["x"] = .ok coordinate ∧ 0.0 < o.epsilon ∧ 2.0 ≤ o.lambdaUp
      ∧ (∀ k, (minimize (o.withMaxSteps k) p #v[1e200]).report.steps = k)
      ∧ ¬ ∃ N, ∀ k, (minimize (o.withMaxSteps k) p #v[1e200]).report.steps ≤ N := by
  intro o p
  have start : History (o.withMaxSteps 1) p #v[1e200] _ _ := .start (by decide)
  have first : History (o.withMaxSteps 1) p #v[1e200] _ _ :=
    start.next (x := #v[1e200]) rfl (by decide) (by decide +kernel)
  obtain ⟨ts, s, h, stalled, hone⟩ : ∃ ts s, History (o.withMaxSteps 1) p #v[1e200] ts s
      ∧ s.Stalled o p #v[1e200] ∧ s.steps = 1 :=
    ⟨_, _, first, ⟨by decide +kernel, by decide +kernel, by decide +kernel, by decide +kernel,
      by decide +kernel⟩, by decide +kernel⟩
  have hsteps (k : Nat) : (minimize (o.withMaxSteps k) p #v[1e200]).report.steps = k := by
    cases k with
    | zero => rfl
    | succ k => exact h.steps_of_stalled stalled (by omega)
  exact ⟨rfl, by decide +kernel, by decide +kernel, hsteps, h.unbounded stalled⟩

/-- The residual `x` to the right of zero and `2 - x / 2` elsewhere, with one in the place of its
derivative. -/
def kink : Problem Float 1 where
  evaluate x := ⟨1, x.map fun t => if 0.0 < t then t else 2.0 - t / 2.0, Mat.identity 1⟩

/-- Two trials on `kink` are accepted, at four and at zero, and the damping is zero then. The next one
is rejected, and made again for ever. -/
theorem steps_unbounded_kink :
    let o : Options Float := { Options.standard with initialLambda := 1.0, lambdaDown := 1e200 }
    ¬ ∃ N, ∀ k, (minimize (o.withMaxSteps k) kink #v[8.0]).report.steps ≤ N := by
  intro o
  have start : History (o.withMaxSteps 2) kink #v[8.0] _ _ := .start (by decide)
  have first : History (o.withMaxSteps 2) kink #v[8.0] _ _ :=
    start.next (x := #v[4.0]) rfl (by decide) (by decide +kernel)
  have second : History (o.withMaxSteps 2) kink #v[8.0] _ _ :=
    first.next (x := #v[0.0]) (by decide +kernel) (by decide +kernel) (by decide +kernel)
  exact second.unbounded (x := #v[-2.0])
    ⟨by decide +kernel, by decide +kernel, by decide +kernel, by decide +kernel, by decide +kernel⟩

end LeastSquares.LevenbergMarquardt
