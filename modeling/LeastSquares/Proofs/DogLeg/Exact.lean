/-
LeastSquares.Proofs.DogLeg.Exact — runs of the trust region method, computed exactly.

Whatever the problem is, the radius is positive as long as a run goes on (`Reaches.radius_pos`), and
the gradient is not zero (`Running.exists_gradient_ne_zero`), so there is a step with a gain. As
nothing but numbers turn up, no run breaks down (`exists_trials`).
-/
import Mathlib
import LeastSquares.Proofs.DogLeg.Path
import LeastSquares.Proofs.Exact.Settings

namespace LeastSquares.DogLeg

variable {n : Nat} {o : Options ℝ} {p : Problem ℝ n} {x₀ h : Vec ℝ n} {s t : State ℝ n}

/-! ## The gradient -/

/-- Where the model is not stationary, the gradient is larger than the threshold. -/
theorem lt_normInf_gradient {m : LinearModel ℝ n} {epsilon : ℝ}
    (moving : m.isStationary epsilon = false) : epsilon < m.gradient.normInf := by
  obtain ⟨-, hgradient⟩ := Bool.or_eq_false_iff.1 moving
  exact not_le.1 (of_decide_eq_false hgradient)

/-- Steps are made only if the first model is not stationary. -/
theorem of_opening_eq_go {m : LinearModel ℝ n} {radius : ℝ} (opened : opening o x₀ m = .go radius) :
    m.isStationary o.epsilon = false ∧ radius = o.delta0.getD (0.5 * m.gradient.normInf) := by
  unfold opening at opened
  split_ifs at opened with count finite stationary
  exact ⟨Bool.not_eq_true _ ▸ stationary, (Opening.go.inj opened).symm⟩

theorem State.found_of_resize {length ratio : ℝ}
    (running : (s.resize o length ratio).found = false) : s.found = false := by
  unfold resize at running
  split_ifs at running
  · exact running
  · exact (Bool.or_eq_false_iff.1 running).1
  · exact running

/-- A run goes on only where the model is not stationary. -/
theorem Reaches.not_stationary (reached : Reaches o p x₀ s) (running : s.found = false) :
    s.model.isStationary o.epsilon = false := by
  induction reached with
  | initial opened => exact (of_opening_eq_go opened).1
  | @next s t _ before _ turned ih =>
    obtain ⟨h, -, ⟨-, -, rfl⟩ | ⟨-, rfl⟩⟩ := State.turn_eq_go_iff.1 turned
    · rw [State.model_resize]
      exact State.found_of_resize running
    · rw [State.model_resize]
      exact ih before

theorem Reaches.model_eq_ofEvaluation (reached : Reaches o p x₀ s) :
    s.model = .ofEvaluation (p.evaluate s.point) := by
  obtain ⟨ts, history⟩ := reached.exists_history
  exact history.tracks.model

/-- A run goes on only where the gradient is not zero. -/
theorem Running.exists_gradient_ne_zero (ho : o.InRange) (hs : Running o p x₀ s) :
    ∃ j, (LinearModel.ofEvaluation (p.evaluate s.point)).gradient.get j ≠ 0 := by
  have hlarge := lt_normInf_gradient (hs.reached.not_stationary hs.running)
  rw [hs.reached.model_eq_ofEvaluation] at hlarge
  by_contra! hzero
  refine hlarge.not_ge ((Vec.normInf_le_iff_abs _).2 ⟨ho.epsilon, fun j => ?_⟩)
  rw [hzero, abs_zero]
  exact ho.epsilon

/-! ## The radius -/

theorem State.radius_resize_pos (hs : 0 < s.radius) (length ratio : ℝ) :
    0 < (s.resize o length ratio).radius := by
  unfold resize
  split_ifs
  · show 0 < Scalar.max s.radius (3.0 * length)
    rw [Exact.max_eq]
    exact lt_max_of_lt_left hs
  · show 0 < s.radius / 2.0
    positivity
  · exact hs

theorem Reaches.radius_pos (ho : o.InRange) (reached : Reaches o p x₀ s) : 0 < s.radius := by
  induction reached with
  | @initial radius opened =>
    obtain ⟨moving, hradius⟩ := of_opening_eq_go opened
    have hlarge := ho.epsilon.trans_lt (lt_normInf_gradient moving)
    show 0 < radius
    rw [hradius]
    cases hdelta : o.delta0 with
    | none =>
      rw [Option.getD_none]
      positivity
    | some delta0 => exact ho.delta0 delta0 hdelta
  | @next s t _ _ _ turned ih =>
    obtain ⟨h, -, ⟨-, -, rfl⟩ | ⟨-, rfl⟩⟩ := State.turn_eq_go_iff.1 turned
    · exact State.radius_resize_pos (s := s.afterMove o p h) ih ..
    · exact State.radius_resize_pos (s := s.afterTrial p h) ih ..

/-! ## The whole run -/

/-- Each trial of a run is made by a step, which leads to the state of the next trial. -/
theorem History.steps {ts : List (Trial ℝ n)} (history : History o p x₀ ts s) :
    (∀ t ∈ ts, Running o p x₀ t.state ∧ t.state.Tries o t.step)
      ∧ (ts.IsChain fun t u => t.state.turn o p = .go u.state)
      ∧ ∀ t ∈ ts.getLast?, t.state.turn o p = .go s := by
  induction history with
  | initial _ => simp
  | @next ts s t h history running budget tried turned ih =>
    obtain ⟨tries, chain, last⟩ := ih
    refine ⟨fun u hu => ?_, List.isChain_append.2 ⟨chain, .singleton _, ?_⟩, ?_⟩
    · rcases List.mem_append.1 hu with hu | hu
      · exact tries u hu
      · obtain rfl := List.mem_singleton.1 hu
        exact ⟨⟨history.reaches, running, budget⟩, tried⟩
    · intro u hu v hv
      obtain rfl : ⟨s, h⟩ = v := Option.some.inj hv
      exact last u hu
    · rw [List.getLast?_concat]
      intro u hu
      obtain rfl : ⟨s, h⟩ = u := Option.some.inj hu
      exact turned

theorem State.failure_finish_ne (s : State ℝ n) : s.finish.report.failure ≠ some .numerical := by
  cases hfound : s.found <;> simp [finish, hfound]

/-- A run that makes steps ends after one of them, and it does not break down. -/
theorem exists_history_of_opening {radius : ℝ}
    (opened : opening o x₀ (.ofEvaluation (p.evaluate x₀)) = .go radius) :
    ∃ ts s, History o p x₀ ts s ∧ (minimize o p x₀).requests = s.requests
      ∧ (minimize o p x₀).report.failure ≠ some .numerical := by
  obtain ⟨s, reached, hend⟩ := (Reaches.initial opened).exists_ends
  obtain ⟨ts, history⟩ := reached.exists_history
  refine ⟨ts, s, history, ?_⟩
  generalize minimize o p x₀ = r at hend ⊢
  cases hend with
  | found _ => exact ⟨rfl, s.failure_finish_ne⟩
  | outOfSteps _ _ => exact ⟨rfl, s.failure_finish_ne⟩
  | stopped _ _ turned =>
    rcases State.cases_of_stop turned with ⟨singular, -⟩ | ⟨h, -, -, rfl⟩ | ⟨h, -, -, infinite, -⟩
    · obtain ⟨newton, hnewton⟩ := exists_gaussNewton (p.evaluate s.point)
      rw [step?, reached.model_eq_ofEvaluation, hnewton] at singular
      contradiction
    · exact ⟨rfl, State.failure_finish_ne _⟩
    · rw [LinearModel.isFinite_eq_true] at infinite
      contradiction

/-- All requests of a run, after the one at its initial point, belong to trials that its steps make,
and it does not break down. -/
theorem exists_trials (o : Options ℝ) (p : Problem ℝ n) (x₀ : Vec ℝ n) :
    (∃ ts : List (Trial ℝ n),
      (minimize o p x₀).requests.toList = .evaluation x₀ :: ts.flatMap (Trial.requests p)
        ∧ (∀ t ∈ ts, Running o p x₀ t.state ∧ t.state.Tries o t.step)
        ∧ ts.IsChain fun t u => t.state.turn o p = .go u.state)
      ∧ (minimize o p x₀).report.failure ≠ some .numerical := by
  cases opened : opening o x₀ (LinearModel.ofEvaluation (p.evaluate x₀)) with
  | stop r =>
    have hrun : minimize o p x₀ = r := by rw [minimize, opened]
    simp only [opening, LinearModel.isFinite_eq_true, if_true] at opened
    rw [hrun]
    split_ifs at opened <;> obtain rfl := Opening.stop.inj opened <;>
      exact ⟨⟨[], rfl, by simp, .nil⟩, by simp [Run.atStart]⟩
  | go radius =>
    obtain ⟨ts, s, history, hrequests, solved⟩ := exists_history_of_opening opened
    obtain ⟨tries, chain, -⟩ := history.steps
    exact ⟨⟨ts, hrequests ▸ history.tracks.requests, tries, chain⟩, solved⟩

end LeastSquares.DogLeg
