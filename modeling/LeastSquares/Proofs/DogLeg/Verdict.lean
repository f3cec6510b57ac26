/-
LeastSquares.Proofs.DogLeg.Verdict — what the outcome of a run says.

A run has three outcomes, and each of them says what has happened.

* `Converges` — a test for convergence is met: the residuals or the gradient are small, or the step
  or the radius is small beside the point. Then the run has no failure.
* `BreaksDown` — numbers turn up that are not finite, or there is no Gauss-Newton step. Then the
  failure is a numerical one.
* If neither of the two happens until the budget is spent, the run has lost patience.

`verdict_exact` states this for doubles. Nothing else can happen, because every run ends in one of
the ways of `State.Ends`, and every comparison that ends it is one of numbers: residuals and gradient
are finite wherever a run goes on (`Reaches.finite`), and the maximum norm keeps what is no number.
-/
import LeastSquares.Proofs.DogLeg.Descent
import LeastSquares.Proofs.Norms

namespace LeastSquares

variable {K : Type} [Scalar K] {n : Nat}

/-! ## Points where a run may end -/

/-- The magnitudes of all entries are at most `c`, and so is zero. -/
def Vec.Within (v : Vec K n) (c : K) : Prop :=
  0 ≤ c ∧ ∀ x ∈ v.toList, Scalar.abs x ≤ c

namespace Problem

variable (p : Problem K n) (epsilon : K) (x : Vec K n)

/-- The gradient of half the error at `x`, as the linear model has it. -/
def gradient : Vec K n :=
  (LinearModel.ofEvaluation (p.evaluate x)).gradient

/-- All residuals and all entries of the gradient at `x` are finite. -/
def FiniteAt : Prop :=
  (∀ r ∈ (p.evaluate x).residuals.toList, Scalar.isFinite r = true)
    ∧ ∀ g ∈ (p.gradient x).toList, Scalar.isFinite g = true

/-- No residual at `x`, or no entry of the gradient, is larger in magnitude than `epsilon`. -/
def StationaryAt : Prop :=
  (p.evaluate x).residuals.Within epsilon ∨ (p.gradient x).Within epsilon

theorem finiteAt_iff :
    p.FiniteAt x ↔ (LinearModel.ofEvaluation (p.evaluate x)).isFinite = true := by
  rw [LinearModel.isFinite, Bool.and_eq_true, List.all_eq_true, List.all_eq_true]
  rfl

theorem stationaryAt_iff (p : Problem Float n) (epsilon : Float) (x : Vec Float n) :
    p.StationaryAt epsilon x
      ↔ (LinearModel.ofEvaluation (p.evaluate x)).isStationary epsilon = true := by
  rw [LinearModel.isStationary, Bool.or_eq_true, decide_eq_true_iff, decide_eq_true_iff,
    Vec.normInf_le_iff, Vec.normInf_le_iff]
  rfl

end Problem

namespace DogLeg

/-! ## What may happen in a run -/

/-- The run from `x₀` comes to the state `s` and makes another step there. -/
structure Running (o : Options K) (p : Problem K n) (x₀ : Vec K n)
    (s : State K n) : Prop where
  reached : Reaches o p x₀ s
  running : s.found = false
  budget : s.steps < o.maxSteps

/-- The run from `x₀` meets a test for convergence at `x`. -/
inductive Converges (o : Options K) (p : Problem K n) (x₀ : Vec K n) :
    Vec K n → Prop where
  | atStart (finite : p.FiniteAt x₀) (stationary : p.StationaryAt o.epsilon x₀) :
      Converges o p x₀ x₀
  /-- An accepted point is stationary. -/
  | stationary {s : State K n} {h : Vec K n} (running : Running o p x₀ s)
      (tried : s.Tries o h) (accepted : 0 < s.ratio p h) (finite : p.FiniteAt (s.point.add h))
      (stationary : p.StationaryAt o.epsilon (s.point.add h)) :
      Converges o p x₀ (s.point.add h)
  /-- The step is small beside the point where it starts. -/
  | shortStep {s : State K n} {h : Vec K n} (running : Running o p x₀ s)
      (step : step? s.model s.radius = some h)
      (short : h.norm ≤ o.epsilon * (s.point.norm + o.epsilon)) : Converges o p x₀ s.point
  /-- The radius is halved, and small then beside the point that the step has led to. -/
  | smallRadius {s t : State K n} {h : Vec K n} (running : Running o p x₀ s)
      (tried : s.Tries o h) (turned : s.turn o p = .go t) (low : s.ratio p h < 0.25)
      (halved : t.radius = s.radius / 2.0)
      (small : t.radius ≤ o.epsilon * (t.point.norm + o.epsilon)) : Converges o p x₀ t.point

/-- The run from `x₀` cannot go on. -/
inductive BreaksDown (o : Options K) (p : Problem K n) (x₀ : Vec K n) : Prop where
  | atStart (infinite : ¬ p.FiniteAt x₀)
  /-- The equations of the Gauss-Newton step have no solution. -/
  | singular {s : State K n} (running : Running o p x₀ s)
      (unsolved : gaussNewton? s.model = none)
  /-- Residuals or gradient at an accepted point are not finite. -/
  | notFinite {s : State K n} {h : Vec K n} (running : Running o p x₀ s)
      (tried : s.Tries o h) (accepted : 0 < s.ratio p h)
      (infinite : ¬ p.FiniteAt (s.point.add h))

variable {o : Options Float} {p : Problem Float n} {x₀ x h : Vec Float n} {s t : State Float n}
  {r : Run Float n}

/-! ## A change of the radius -/

namespace State

theorem resize_of_lt {ratio : Float} (low : ratio < 0.25) (o : Options Float) (s : State Float n)
    (length : Float) : s.resize o length ratio = { s with
      radius := s.radius / 2.0
      found := s.found || s.isNegligible o.epsilon (s.radius / 2.0) } := by
  have hhigh : ¬ 0.75 < ratio := fun high => by
    have : (0.75 : Float) < 0.25 := OrderedScalar.lt_trans high low
    revert this
    decide +kernel
  rw [resize, if_neg hhigh, if_pos low]

/-- A change of the radius ends a run only if it makes the radius small. -/
theorem found_resize {length ratio : Float} (found : (s.resize o length ratio).found = true) :
    s.found = true ∨ ratio < 0.25 ∧ s.isNegligible o.epsilon (s.radius / 2.0) = true := by
  unfold resize at found
  split_ifs at found with high low
  · exact .inl found
  · rcases Bool.or_eq_true _ _ ▸ found with found | small
    · exact .inl found
    · exact .inr ⟨low, small⟩
  · exact .inl found

theorem found_resize_of_found (found : s.found = true) (length ratio : Float) :
    (s.resize o length ratio).found = true := by
  unfold resize
  split_ifs <;> simp [found]

/-- A radius that is small after it has been halved ends a run. -/
theorem found_of_small {length ratio : Float} (low : ratio < 0.25)
    (small : (s.resize o length ratio).radius
      ≤ o.epsilon * ((s.resize o length ratio).point.norm + o.epsilon)) :
    (s.resize o length ratio).found = true := by
  rw [resize_of_lt low] at small ⊢
  exact Bool.or_eq_true_iff.2 (.inr (decide_eq_true small))

end State

/-! ## States -/

/-- Between two steps of a run the residuals and the gradient are finite. -/
theorem Reaches.finite (reached : Reaches o p x₀ s) : s.model.isFinite = true := by
  induction reached with
  | initial opened =>
    unfold opening at opened
    split_ifs at opened with count finite
    exact finite
  | next _ _ _ turned ih =>
    obtain ⟨h, -, ⟨-, finite, rfl⟩ | ⟨-, rfl⟩⟩ := State.turn_eq_go_iff.1 turned
    · rw [State.model_resize]
      exact finite
    · rw [State.model_resize]
      exact ih

theorem Reaches.model_eq (reached : Reaches o p x₀ s) :
    s.model = .ofEvaluation (p.evaluate s.point) := by
  obtain ⟨ts, history⟩ := reached.exists_history
  exact history.tracks.model

theorem Reaches.finiteAt (reached : Reaches o p x₀ s) : p.FiniteAt s.point := by
  rw [Problem.finiteAt_iff, ← reached.model_eq]
  exact reached.finite

/-- A state in which a run is over has met a test. -/
theorem Reaches.converges (reached : Reaches o p x₀ t) (found : t.found = true) :
    Converges o p x₀ t.point := by
  cases reached with
  | initial opened => contradiction
  | @next s _ reached running budget turned =>
    have hrunning : Running o p x₀ s := ⟨reached, running, budget⟩
    obtain ⟨h, tried⟩ := State.exists_tries turned
    have shrunk {u : State Float n} (ht : t = u.resize o h.norm (s.ratio p h))
        (hu : u.radius = s.radius) (low : s.ratio p h < 0.25)
        (small : u.isNegligible o.epsilon (u.radius / 2.0) = true) : Converges o p x₀ t.point := by
      refine .smallRadius hrunning tried turned low ?_ ?_
      · rw [ht, State.resize_of_lt low, hu]
      · rw [ht, State.resize_of_lt low]
        exact of_decide_eq_true small
    obtain ⟨accepted, finite, ht⟩ | ⟨-, ht⟩ := State.eq_of_turn tried turned
    · rcases State.found_resize (ht ▸ found) with stationary | ⟨low, small⟩
      · rw [ht, State.point_resize]
        exact .stationary hrunning tried accepted ((p.finiteAt_iff _).2 finite)
          ((p.stationaryAt_iff ..).2 stationary)
      · exact shrunk ht rfl low small
    · rcases State.found_resize (ht ▸ found) with found | ⟨low, small⟩
      · exact absurd (found.symm.trans running) (by decide)
      · exact shrunk ht rfl low small

/-! ## What a run reports -/

theorem Running.minimize_eq_of_stop (hs : Running o p x₀ s) (turned : s.turn o p = .stop r) :
    minimize o p x₀ = r :=
  hs.reached.minimize_eq_of_ends (.stopped hs.running hs.budget turned)

theorem Running.minimize_eq_of_found (hs : Running o p x₀ s) (turned : s.turn o p = .go t)
    (found : t.found = true) : minimize o p x₀ = t.finish :=
  (hs.reached.next hs.running hs.budget turned).minimize_eq_of_ends (.found found)

theorem State.failure_finish (found : s.found = true) : s.finish.report.failure = none :=
  if_pos found

/-- A run that meets a test for convergence has no failure, and returns the point where it meets
it. -/
theorem Converges.report (hx : Converges o p x₀ x) (count : (p.evaluate x₀).count ≠ 0) :
    (minimize o p x₀).report.failure = none ∧ (minimize o p x₀).point = x := by
  cases hx with
  | atStart finite stationary =>
    rw [Problem.finiteAt_iff] at finite
    rw [Problem.stationaryAt_iff] at stationary
    have opened : opening o x₀ (LinearModel.ofEvaluation (p.evaluate x₀)) = .stop (.atStart x₀ none
        (0.5 * (LinearModel.ofEvaluation (p.evaluate x₀)).error) #[]) := by
      have hcount : (LinearModel.ofEvaluation (p.evaluate x₀)).count ≠ 0 := count
      rw [opening, if_neg hcount, if_pos finite, if_pos stationary]
    rw [minimize, opened]
    exact ⟨rfl, rfl⟩
  | @stationary s h running tried accepted finite stationary =>
    rw [Problem.finiteAt_iff] at finite
    rw [Problem.stationaryAt_iff] at stationary
    have turned := State.turn_eq_go_iff.2 ⟨h, tried, .inl ⟨accepted, finite, rfl⟩⟩
    have found : ((s.afterMove o p h).resize o h.norm (s.ratio p h)).found = true :=
      State.found_resize_of_found stationary ..
    rw [running.minimize_eq_of_found turned found]
    exact ⟨State.failure_finish found, State.point_resize ..⟩
  | @shortStep s h running step short =>
    rw [running.minimize_eq_of_stop (State.turn_of_negligible p step (decide_eq_true short))]
    exact ⟨rfl, rfl⟩
  | @smallRadius s t h running tried turned low halved small =>
    have found : t.found = true := by
      obtain ⟨-, -, rfl⟩ | ⟨-, rfl⟩ := State.eq_of_turn tried turned
      · exact State.found_of_small low small
      · exact State.found_of_small low small
    rw [running.minimize_eq_of_found turned found]
    exact ⟨State.failure_finish found, rfl⟩

/-- A run that cannot go on fails. -/
theorem BreaksDown.report (h : BreaksDown o p x₀) (count : (p.evaluate x₀).count ≠ 0) :
    (minimize o p x₀).report.failure = some .numerical := by
  cases h with
  | atStart infinite =>
    rw [Problem.finiteAt_iff] at infinite
    have opened : opening o x₀ (LinearModel.ofEvaluation (p.evaluate x₀)) = .stop (.atStart x₀
        (some .numerical) (0.5 * (LinearModel.ofEvaluation (p.evaluate x₀)).error)
        #[.notFiniteAtStart]) := by
      have hcount : (LinearModel.ofEvaluation (p.evaluate x₀)).count ≠ 0 := count
      rw [opening, if_neg hcount, if_neg infinite]
    rw [minimize, opened]
    rfl
  | @singular s running unsolved =>
    have hstep : step? s.model s.radius = none := by rw [step?, unsolved, Option.map_none]
    rw [running.minimize_eq_of_stop (State.turn_of_singular p hstep)]
    rfl
  | @notFinite s h running tried accepted infinite =>
    have infinite' : ¬ (s.afterMove o p h).model.isFinite = true := by
      rwa [Problem.finiteAt_iff] at infinite
    have turned : s.turn o p = .stop ((s.afterMove o p h).fail (.notFinite (s.steps + 1))) := by
      rw [State.turn_of_tries p tried, if_pos accepted, if_neg infinite']
    rw [running.minimize_eq_of_stop turned]
    rfl

/-- A run that ends after some steps converges, or uses up its budget, or breaks down. -/
theorem Reaches.outcome (reached : Reaches o p x₀ s) (hend : s.Ends o p r) :
    r.report.steps ≤ o.maxSteps
      ∧ (Converges o p x₀ r.point
        ∨ r.report.failure = some .lostPatience ∧ r.report.steps = o.maxSteps ∧ p.FiniteAt r.point
        ∨ BreaksDown o p x₀) := by
  have hsteps := reached.minimize_eq.1
  cases hend with
  | found found => exact ⟨hsteps, .inl (reached.converges found)⟩
  | outOfSteps running budget =>
    refine ⟨hsteps, .inr (.inl ⟨?_, Nat.le_antisymm hsteps budget, reached.finiteAt⟩)⟩
    exact if_neg (by simp [running])
  | stopped running budget turned =>
    have hrunning : Running o p x₀ s := ⟨reached, running, budget⟩
    obtain ⟨singular, rfl⟩ | ⟨h, step, short, rfl⟩ | ⟨h, tried, accepted, infinite, rfl⟩ :=
      State.cases_of_stop turned
    · exact ⟨budget, .inr (.inr (.singular hrunning (Option.map_eq_none_iff.1 singular)))⟩
    · exact ⟨budget, .inl (.shortStep hrunning step (of_decide_eq_true short))⟩
    · refine ⟨budget, .inr (.inr (.notFinite hrunning tried accepted ?_))⟩
      rw [Problem.finiteAt_iff]
      exact fun finite => absurd (finite.symm.trans infinite) (by decide)

/-- A run converges, or uses up its budget, or breaks down. -/
theorem outcome (o : Options Float) (p : Problem Float n) (x₀ : Vec Float n)
    (count : (p.evaluate x₀).count ≠ 0) :
    (minimize o p x₀).report.steps ≤ o.maxSteps
      ∧ (Converges o p x₀ (minimize o p x₀).point
        ∨ (minimize o p x₀).report.failure = some .lostPatience
          ∧ (minimize o p x₀).report.steps = o.maxSteps ∧ p.FiniteAt (minimize o p x₀).point
        ∨ BreaksDown o p x₀) := by
  cases opened : opening o x₀ (LinearModel.ofEvaluation (p.evaluate x₀)) with
  | go radius =>
    obtain ⟨s, reached, hend⟩ := (Reaches.initial opened).exists_ends
    exact reached.outcome hend
  | stop r =>
    have hrun : minimize o p x₀ = r := by rw [minimize, opened]
    have hcount : (LinearModel.ofEvaluation (p.evaluate x₀)).count ≠ 0 := count
    rw [hrun]
    rw [opening, if_neg hcount] at opened
    split_ifs at opened with finite stationary
    · obtain rfl := Opening.stop.inj opened
      exact ⟨Nat.zero_le _, .inl (.atStart ((p.finiteAt_iff _).2 finite)
        ((p.stationaryAt_iff ..).2 stationary))⟩
    · obtain rfl := Opening.stop.inj opened
      exact ⟨Nat.zero_le _, .inr (.inr (.atStart fun h => finite ((p.finiteAt_iff _).1 h)))⟩

/-- Where a run converges, residuals and gradient are finite. -/
theorem Converges.finiteAt (hx : Converges o p x₀ x) : p.FiniteAt x := by
  cases hx with
  | atStart finite _ => exact finite
  | stationary _ _ _ finite _ => exact finite
  | shortStep running _ _ => exact running.reached.finiteAt
  | smallRadius running _ turned _ _ _ =>
    exact (running.reached.next running.running running.budget turned).finiteAt

/-- The verdict of a run is exact: it reports no failure if and only if it has met a test for
convergence, at the point that it returns; a numerical failure if and only if it could not go on;
and that it has lost patience if and only if all its steps were made and neither has happened.
Residuals and gradient at the point returned are finite, unless the failure is numerical. -/
theorem verdict_exact (o : Options Float) (p : Problem Float n) (x₀ : Vec Float n)
    (count : (p.evaluate x₀).count ≠ 0) :
    let r := minimize o p x₀
    r.report.steps ≤ o.maxSteps
      ∧ (r.report.failure ≠ some .numerical → p.FiniteAt r.point)
      ∧ (∀ x, Converges o p x₀ x ↔ r.report.failure = none ∧ r.point = x)
      ∧ (r.report.failure = some .lostPatience ↔ r.report.steps = o.maxSteps
        ∧ (∀ x, ¬ Converges o p x₀ x) ∧ ¬ BreaksDown o p x₀)
      ∧ (r.report.failure = some .numerical ↔ BreaksDown o p x₀) := by
  have converged {x : Vec Float n} (hx : Converges o p x₀ x) := hx.report count
  have broken (h : BreaksDown o p x₀) := h.report count
  obtain ⟨hsteps, houtcome⟩ := outcome o p x₀ count
  generalize minimize o p x₀ = r at *
  -- at most one of the three outcomes is there, as they differ in the failure that they report
  rcases houtcome with hx | ⟨hlost, spent, finite⟩ | hbroken
  · obtain ⟨hnone, -⟩ := converged hx
    have sound : ¬ BreaksDown o p x₀ := fun h => by simp [broken h] at hnone
    refine ⟨hsteps, fun _ => hx.finiteAt, fun x => ⟨converged, ?_⟩, ?_, ?_⟩
    · rintro ⟨-, rfl⟩
      exact hx
    · exact iff_of_false (by simp [hnone]) fun h => h.2.1 _ hx
    · exact iff_of_false (by simp [hnone]) sound
  · have never (x : Vec Float n) : ¬ Converges o p x₀ x := fun hx => by
      simp [(converged hx).1] at hlost
    have sound : ¬ BreaksDown o p x₀ := fun h => by simp [broken h] at hlost
    refine ⟨hsteps, fun _ => finite, fun x => ?_, ?_, ?_⟩
    · exact iff_of_false (never x) fun h => by simp [h.1] at hlost
    · exact iff_of_true hlost ⟨spent, never, sound⟩
    · exact iff_of_false (by simp [hlost]) sound
  · have hfailure := broken hbroken
    have never (x : Vec Float n) : ¬ Converges o p x₀ x := fun hx => by
      simp [(converged hx).1] at hfailure
    refine ⟨hsteps, fun h => absurd hfailure h, fun x => ?_, ?_, ?_⟩
    · exact iff_of_false (never x) fun h => by simp [h.1] at hfailure
    · exact iff_of_false (by simp [hfailure]) fun h => h.2.2 hbroken
    · exact iff_of_true hfailure hbroken

/-- Within two steps and a small radius, the run on `line` from zero does not come to five. -/
theorem verdict_exact_line :
    let o : Options Float := { Options.standard with delta0 := some 0.5, maxSteps := 2 }
    (line.evaluate #v[0.0]).count ≠ 0
      ∧ (minimize o line #v[0.0]).report.failure = some .lostPatience
      ∧ line.FiniteAt #v[2.0] ∧ (∀ x, ¬ Converges o line #v[0.0] x)
      ∧ ¬ BreaksDown o line #v[0.0] := by
  intro o
  have count : (line.evaluate #v[0.0]).count ≠ 0 := by decide
  obtain ⟨-, finite, -, lost, -⟩ := verdict_exact o line #v[0.0] count
  have hlost : (minimize o line #v[0.0]).report.failure = some .lostPatience := by decide +kernel
  have hpoint : (minimize o line #v[0.0]).point = #v[2.0] := by decide +kernel
  obtain ⟨-, never, sound⟩ := lost.1 hlost
  exact ⟨count, hlost, hpoint ▸ finite (by rw [hlost]; decide), never, sound⟩

end DogLeg

end LeastSquares
