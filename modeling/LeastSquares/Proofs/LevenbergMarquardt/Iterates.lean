/-
LeastSquares.Proofs.LevenbergMarquardt.Iterates — where a run stands, and what it asks next.

The state of a run has parts that are updated one by one: the point, its model, the damping, and the
trial point with its error. `state_of_history` says what they are after any number of
steps, in terms of the trials made until then (`State.Follows`): the point is the first one with the
smallest error, the model belongs to it, the damping has been changed once for each trial, and the
next point that the problem is asked for is the one that the damped equations give for this model
and this damping.
-/
import LeastSquares.Proofs.LevenbergMarquardt.Trajectory

namespace LeastSquares.LevenbergMarquardt

/-! ## Minima of computed values -/

section Minimum

variable {K α : Type} [Scalar K]

/-- `x` is the first of the points at which `f` is smallest. Points at which `f` is no number do not
count. -/
def EarliestMinimum (f : α → K) (xs : List α) (x : α) : Prop :=
  Scalar.isNaN (f x) = false ∧ ∃ before after, xs = before ++ x :: after
    ∧ (∀ y ∈ before, Scalar.isNaN (f y) = false → f x < f y)
    ∧ ∀ y ∈ after, Scalar.isNaN (f y) = false → f x ≤ f y

variable {f : α → K} {xs : List α} {x y : α}

theorem EarliestMinimum.singleton (h : Scalar.isNaN (f x) = false) : EarliestMinimum f [x] x :=
  ⟨h, [], [], rfl, by simp, by simp⟩

variable [OrderedScalar K]

/-- A smaller value is the new minimum. -/
theorem EarliestMinimum.concat_of_lt (h : EarliestMinimum f xs x) (hy : f y < f x) :
    EarliestMinimum f (xs ++ [y]) y := by
  obtain ⟨-, before, after, rfl, hbefore, hafter⟩ := h
  refine ⟨(OrderedScalar.lt_iff.1 hy).1, before ++ x :: after, [], rfl, ?_, by simp⟩
  intro z hz hnan
  rcases List.mem_append.1 hz with hz | hz
  · exact OrderedScalar.lt_trans hy (hbefore z hz hnan)
  · rcases List.mem_cons.1 hz with rfl | hz
    · exact hy
    · exact OrderedScalar.lt_of_lt_of_le hy (hafter z hz hnan)

/-- A value that is not smaller changes nothing, also if it is no number. -/
theorem EarliestMinimum.concat_of_not_lt (h : EarliestMinimum f xs x) (hy : ¬ f y < f x) :
    EarliestMinimum f (xs ++ [y]) x := by
  obtain ⟨hx, before, after, rfl, hbefore, hafter⟩ := h
  refine ⟨hx, before, after ++ [y], by simp, hbefore, ?_⟩
  intro z hz hnan
  rcases List.mem_append.1 hz with hz | hz
  · exact hafter z hz hnan
  · obtain rfl := List.mem_singleton.1 hz
    exact OrderedScalar.le_of_not_lt hnan hx hy

end Minimum

variable {K : Type} [Scalar K] {n : Nat} {o : Options K} {p : Problem K n} {x₀ x : Vec K n}
  {s : State K n} {ts : List (Trial K n)}

/-! ## The point -/

/-- A step goes to the trial point exactly if the error there is smaller. -/
theorem State.Tracks.point_advance (h : s.Tracks p x₀ ts) (o : Options K) (x : Vec K n) :
    (s.advance o x (p.evaluate x)).point = if p.error x < p.error s.point then x else s.point := by
  rw [State.point_advance, h.model]
  rfl

section Point

variable [OrderedScalar K]

theorem History.earliestMinimum (h : History o p x₀ ts s)
    (hnan : Scalar.isNaN (p.error x₀) = false) :
    EarliestMinimum p.error (x₀ :: ts.map Trial.point) s.point := by
  induction h with
  | start _ => exact .singleton hnan
  | @next ts s x history _ _ _ ih =>
    rw [history.tracks.point_advance, List.map_append, ← List.cons_append]
    split
    · exact ih.concat_of_lt ‹_›
    · exact ih.concat_of_not_lt ‹_›

/-- Nothing is smaller than an error that is no number, so the run stays where it is. -/
theorem History.point_of_isNaN (h : History o p x₀ ts s)
    (hnan : Scalar.isNaN (p.error x₀) = true) : s.point = x₀ := by
  induction h with
  | start _ => rfl
  | @next ts s x history _ _ _ ih =>
    rw [history.tracks.point_advance, ih, if_neg]
    intro hlt
    exact absurd hnan (Bool.not_eq_true _ ▸ (OrderedScalar.lt_iff.1 hlt).2.1)

end Point

/-! ## The damping -/

/-- A trial is accepted if its error is smaller than the one of the point it starts from. -/
def Trial.Accepted (p : Problem K n) (t : Trial K n) : Prop :=
  p.error t.point < p.error t.state.point

instance (p : Problem K n) (t : Trial K n) : Decidable (t.Accepted p) :=
  inferInstanceAs (Decidable (p.error t.point < p.error t.state.point))

/-- The damping after the given trials. -/
def damping (o : Options K) (p : Problem K n) (ts : List (Trial K n)) : K :=
  ts.foldl (fun lambda t => if t.Accepted p then lambda / o.lambdaDown else lambda * o.lambdaUp)
    o.initialLambda

theorem History.lambda_eq (h : History o p x₀ ts s) : s.lambda = damping o p ts := by
  induction h with
  | start _ => rfl
  | @next ts s x history _ _ _ ih =>
    rw [State.lambda_advance, history.tracks.model, damping, List.foldl_append, ← damping, ← ih]
    rfl

/-! ## The next trial -/

/-- The solution of the damped equations `(Jᵀ J + λ I) d = Jᵀ r` at a point with residuals `r` and
Jacobian `J`. -/
def dampedStep? (e : Evaluation K n) (lambda : K) : Option (Vec K n) :=
  ((e.jacobian.transpose.mul e.jacobian).add ((Mat.identity n).scale lambda)).solve?
    (e.jacobian.transpose.mulVec e.residuals)

theorem History.trialPoint?_eq_some_iff (h : History o p x₀ ts s) : s.trialPoint? = some x ↔
    ∃ d, dampedStep? (p.evaluate s.point) (damping o p ts) = some d
      ∧ d.toList.any Scalar.isNaN = false ∧ x = s.point.sub d := by
  have hstep : (s.model.shiftedNormal s.lambda).solve? s.model.gradient
      = dampedStep? (p.evaluate s.point) (damping o p ts) := by
    rw [h.tracks.model, h.lambda_eq]
    rfl
  rw [State.trialPoint?, hstep]
  cases hd : dampedStep? (p.evaluate s.point) (damping o p ts) with
  | none => simp
  | some d =>
    have hsome (e : Vec K n) : some d = some e ↔ e = d := by rw [Option.some.injEq, eq_comm]
    simp only [hsome, exists_eq_left]
    cases d.toList.any Scalar.isNaN <;> simp [eq_comm]

/-- What is asked after a state, if anything is, is the evaluation at the next trial point. -/
theorem History.asks_iff (h : History o p x₀ ts s) (r : Request K n) :
    s.requests.toList ++ [r] <+: (minimize o p x₀).requests.toList ↔
      s.converged = false ∧ s.steps < o.maxSteps
        ∧ ∃ x, s.trialPoint? = some x ∧ r = .evaluation x := by
  rcases s.ends_or_tries o with ⟨run, hend⟩ | ⟨running, budget, x, solved⟩
  · -- the run ends here, with the requests made so far
    rw [h.minimize_eq_of_ends hend, hend.requests_eq]
    refine iff_of_false (fun hpre => ?_) ?_
    · simpa using hpre.length_le
    · rintro ⟨running, budget, x, solved, -⟩
      cases hend with
      | converged found => simp [found] at running
      | outOfSteps spent => omega
      | unsolved _ _ unsolved => simp [unsolved] at solved
  · have hasked : s.requests.toList ++ [.evaluation x] <+: (minimize o p x₀).requests.toList := by
      rw [h.minimize_eq.2, loop_of_trial p running budget solved, ← Array.toList_push,
        ← State.requests_advance o s x (p.evaluate x)]
      exact requests_prefix_loop o p _ _
    constructor
    · -- two requests that come next are the same one
      intro hpre
      have hsame := (List.prefix_of_prefix_length_le hpre hasked (by simp)).eq_of_length (by simp)
      exact ⟨running, budget, x, solved, by simpa using hsame⟩
    · rintro ⟨-, -, y, hy, rfl⟩
      obtain rfl : x = y := Option.some.inj (solved.symm.trans hy)
      exact hasked

/-! ## All steps of a run -/

/-- The state is what the trials `ts` make of it, and the next trial is what the state makes of
it. -/
structure State.Follows (o : Options K) (p : Problem K n) (x₀ : Vec K n) (ts : List (Trial K n))
    (s : State K n) : Prop where
  /-- A run that starts where the error is no number does not move. -/
  stays : Scalar.isNaN (p.error x₀) = true → s.point = x₀
  minimal : Scalar.isNaN (p.error x₀) = false →
    EarliestMinimum p.error (x₀ :: ts.map Trial.point) s.point
  model : s.model = .ofEvaluation (p.evaluate s.point)
  lambda : s.lambda = damping o p ts
  /-- The points evaluated so far are the initial one and the trials. -/
  asked : s.requests.toList = (x₀ :: ts.map Trial.point).map .evaluation
  /-- The run asks for exactly one more evaluation here, or for none. -/
  asks (r : Request K n) : s.requests.toList ++ [r] <+: (minimize o p x₀).requests.toList ↔
    s.converged = false ∧ s.steps < o.maxSteps
      ∧ ∃ d, dampedStep? (p.evaluate s.point) (damping o p ts) = some d
        ∧ d.toList.any Scalar.isNaN = false ∧ r = .evaluation (s.point.sub d)

theorem History.follows [OrderedScalar K] (h : History o p x₀ ts s) : s.Follows o p x₀ ts where
  stays := h.point_of_isNaN
  minimal := h.earliestMinimum
  model := h.tracks.model
  lambda := h.lambda_eq
  asked := h.tracks.requests
  asks r := by
    rw [h.asks_iff]
    simp only [h.trialPoint?_eq_some_iff]
    grind

/-- Before each state of a run there is one for every smaller number of steps. -/
theorem History.exists_of_le (h : History o p x₀ ts s) {k : Nat} (hk : k ≤ ts.length) :
    ∃ ts s, History o p x₀ ts s ∧ ts.length = k := by
  induction h with
  | start count => exact ⟨[], _, .start count, (Nat.le_zero.1 hk).symm⟩
  | @next ts s x history running budget solved ih =>
    rcases Nat.le_or_eq_of_le_succ (by simpa using hk) with hle | heq
    · exact ih hle
    · exact ⟨_, _, history.next running budget solved, by simpa using heq.symm⟩

/-- A run with residuals at its initial point goes through a state after each of its steps, and
each of its states is what the trials until then make of it. -/
theorem state_of_history (o : Options Float) (p : Problem Float n) (x₀ : Vec Float n)
    (count : (p.evaluate x₀).count ≠ 0) :
    (∀ k ≤ (minimize o p x₀).report.steps, ∃ ts s, History o p x₀ ts s ∧ ts.length = k)
      ∧ ∀ ts s, History o p x₀ ts s → s.Follows o p x₀ ts := by
  refine ⟨fun k hk => ?_, fun ts s h => h.follows⟩
  obtain ⟨ts, s, h, hend⟩ := exists_history count o
  have hsteps : (minimize o p x₀).report.steps = ts.length := by
    rw [hend.steps_eq, h.tracks.steps]
  exact h.exists_of_le (hsteps ▸ hk)

/-- The residual is `x`, with an eighth in the place of its derivative, so that a step with little
damping goes too far. -/
def steep : Problem Float 1 where
  evaluate x := ⟨1, x, (Mat.identity 1).scale 0.125⟩

/-- From one, the first step goes to minus three and is rejected; the second one, with more damping,
goes to one half and is accepted. -/
theorem state_of_history_steep :
    let o : Options Float :=
      { Options.standard with initialLambda := 0.015625, lambdaUp := 15.0, maxSteps := 2 }
    (steep.evaluate #v[1.0]).count ≠ 0
      ∧ ∃ ts s, History o steep #v[1.0] ts s ∧ ts.map Trial.point = [#v[-3.0], #v[0.5]]
        ∧ s.point = #v[0.5] ∧ EarliestMinimum steep.error [#v[1.0], #v[-3.0], #v[0.5]] s.point
        ∧ s.lambda = 0.015625 * 15.0 / 10.0 := by
  intro o
  have count : (steep.evaluate #v[1.0]).count ≠ 0 := by decide
  have first : History o steep #v[1.0] _ _ :=
    (History.start count).next (x := #v[-3.0]) rfl (by decide) (by decide +kernel)
  have second : History o steep #v[1.0] _ _ :=
    first.next (x := #v[0.5]) (by decide +kernel) (by decide +kernel) (by decide +kernel)
  have follows := (state_of_history o steep #v[1.0] count).2 _ _ second
  refine ⟨count, _, _, second, rfl, by decide +kernel, follows.minimal (by decide +kernel), ?_⟩
  rw [follows.lambda]
  decide +kernel

end LeastSquares.LevenbergMarquardt
